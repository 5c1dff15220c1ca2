import XmipEssentials.Cabinets
import XmipEssentials.Standings

/-!
# The filing: every archive by every contract

A tick files one probe through every cabinet for every contract, and judges what came back: whole is
a pass, a skip, a refusal or a difference a fail with its line. Each is folded into the standing of
its scope, and what moved is counted.

* `filed_tells` — over any run of ticks, whatever the cabinets hand back, each leaf is the standing
  over all its rounds, and what is counted is what was handed over and what came back of it.
* `judge_exact` — what a judgment says is so: it passes just what came back as it was filed, the
  field it names differs, and a probe of another round or another contract handed back in place of
  this one's never passes.
* `whole_fine` — where every cabinet returns what it is handed and none is skipped, every leaf is
  fine after every tick.
-/

namespace XmipEssentials

open Text Tabled

/-- How often, in percent of rounds at `Stress.realistic`, a pressured filing skips one cabinet for
one contract. -/
def SKIP_RATE : UInt8 := 5

/-- The first field that differs between what was filed and what came back. -/
def difference (filed returned : Cabinet.ArchiveItem) : Text :=
  if filed.bytes ≠ returned.bytes then "the bytes differ".toList
  else if filed.metadata ≠ returned.metadata then "the metadata differs".toList
  else if filed.identifier ≠ returned.identifier then "the identifier differs".toList
  else "the data type differs".toList

/-- The filing: its cabinets by their technologies, its level when one was set, and what it came to
so far. -/
structure Filing where
  node : Text
  cabinets : List Text
  round : Nat
  stress : Option Stress
  standings : AList fun _ : Text => Standing
  filed : Nat
  movedBytes : Nat

namespace Filing

/-- A filing publishing under `node` over these cabinets, skipping none. -/
def new (node : Text) (cabinets : List Text) : Filing where
  node := node
  cabinets := cabinets
  round := 0
  stress := none
  standings := ∅
  filed := 0
  movedBytes := 0

/-- One cabinet for one contract, judged this round. -/
structure Judged where
  scope : Text
  mark : Mark
  line : Text
  filed : Bool
  bytes : Nat
  deriving DecidableEq, Repr

/-- What each cabinet hands back of an item it is handed. -/
abbrev Cabinets : Type := Text → Cabinet.ArchiveItem → Filed

/-- The probe of this round and contract: the contract's own payload, or the level's for the round,
tagged with where it came from and which round filed it. -/
def probe (E : Rig) (f : Filing) (contract : Contract) : Cabinet.ArchiveItem where
  dataType := contract.name
  identifier := decimal f.round ++ '-' :: contract.name
  bytes :=
    match f.stress with
    | some stress => E.payload contract (stress.sizeFor f.round)
    | none => contract.payload E.enc
  metadata := [("source".toList, "essentials".toList), ("round".toList, decimal f.round)]

/-- Whether this cabinet is skipped for this contract this round. -/
def skipped (f : Filing) (pair : Text × Contract) : Bool :=
  match f.stress with
  | none => false
  | some stress =>
    firesKeyed (scaledRate SKIP_RATE stress) ("skip/".toList ++ pair.1 ++ '/' :: pair.2.name)
      f.round

/-- One probe filed through one cabinet, and judged. -/
def judge (E : Rig) (hand : Cabinets) (f : Filing) (pair : Text × Contract) : Judged :=
  let scope := pairScope f.node pair
  if f.skipped pair then
    ⟨scope, .fail, "the cabinet was skipped this round: the item was not filed".toList, false, 0⟩
  else
    let item := f.probe E pair.2
    let size := item.bytes.length
    let (mark, line, bytes) : Mark × Text × Nat :=
      match hand pair.1 item with
      | .returned returned =>
        if returned = item then
          (.pass, decimal size ++ " bytes filed and returned whole".toList, size * 2)
        else (.fail, "returned, but ".toList ++ difference item returned, size)
      | .failed why => (.fail, why, 0)
    ⟨scope, mark, line, true, bytes⟩

/-- Every cabinet by every contract, filed and judged. -/
def fileRound (E : Rig) (hand : Cabinets) (f : Filing) : List Judged :=
  (allPairs f.cabinets).map (f.judge E hand)

/-- What a judgment says of its scope. -/
def Judged.entry (judged : Judged) : Text × (Mark × Text) :=
  (judged.scope, judged.mark, judged.line)

variable {S : Type} [Snapshot S]

/-- One judgment folded in: what was filed and moved, and its standing published. -/
def folded (now : Int) (into : Filing × S) (judged : Judged) : Filing × S :=
  let (f, snapshot) := into
  let standing := ((f.standings.lookup judged.scope).getD .default).record judged.mark judged.line
  ({ f with
      filed := if judged.filed then f.filed + 1 else f.filed
      movedBytes := f.movedBytes + judged.bytes
      standings := f.standings.insert judged.scope standing },
    Snapshot.recordHealth (standing.health judged.scope now) snapshot)

/-- One round: a probe filed for each, judged, folded and published, and the bytes moved at the
node. -/
def tick (E : Rig) (hand : Cabinets) (now : Int) (f : Filing) : S × Filing :=
  let f := { f with round := f.round + 1 }
  let (after, snapshot) := (f.fileRound E hand).foldl (folded now) (f, (Snapshot.new : S))
  (Snapshot.recordCount ⟨after.node, .bytes, after.movedBytes, now, now, now⟩ snapshot, after)

/-- The filing in its next round. -/
def next (f : Filing) : Filing := { f with round := f.round + 1 }

/-- Any number of ticks of a new filing, its cabinets in each as `P` has them, and what was
judged. -/
inductive Driven (S : Type) [Snapshot S] (E : Rig) (P : Cabinets → Prop) :
    Filing → List Judged → Prop
  | new {f : Filing} (hstandings : f.standings = ∅) (hfiled : f.filed = 0)
      (hmoved : f.movedBytes = 0) : Driven S E P f []
  | tick {f f' : Filing} {before : List Judged} {hand : Cabinets} {now : Int} {snapshot : S}
      (driven : Driven S E P f before) (hhand : P hand)
      (ticked : f.tick E hand now = (snapshot, f')) :
      Driven S E P f' (before ++ f.next.fileRound E hand)

/-! ### Over a run -/

/-- **The judgments of a round folded in**, one by one. -/
theorem foldl_folded (now : Int) (judged : List Judged) (f : Filing) (snapshot : S) :
    judged.foldl (folded now) (f, snapshot) =
      ({ f with
          filed := f.filed + judged.countP Judged.filed
          movedBytes := f.movedBytes + (judged.map Judged.bytes).sum
          standings := (publish now (judged.map Judged.entry) (f.standings, snapshot)).1 },
        (publish now (judged.map Judged.entry) (f.standings, snapshot)).2) := by
  induction judged generalizing f snapshot with
  | nil => simp [publish]
  | cons one judged ih =>
    have hfiled : (if one.filed then f.filed + 1 else f.filed) + judged.countP Judged.filed =
        f.filed + (one :: judged).countP Judged.filed := by
      rw [List.countP_cons]
      split_ifs <;> omega
    rw [List.foldl_cons, folded, ih, List.map_cons, List.map_cons, List.sum_cons, publish_cons,
      ← Nat.add_assoc]
    dsimp only
    rw [hfiled]
    rfl

variable {E : Rig} {P : Cabinets → Prop} {hand : Cabinets} {f f' : Filing} {before : List Judged}
    {now : Int} {snapshot : S}

/-- What a tick leaves of the filing, and publishes. -/
theorem tick_eq (E : Rig) (hand : Cabinets) (now : Int) (f : Filing) :
    (f.tick E hand now : S × Filing) =
      let round := f.next.fileRound E hand
      let published : _ × S := publish now (round.map Judged.entry) (f.standings, Snapshot.new)
      let f' : Filing := { f.next with
        filed := f.filed + round.countP Judged.filed
        movedBytes := f.movedBytes + (round.map Judged.bytes).sum
        standings := published.1 }
      (Snapshot.recordCount ⟨f'.node, .bytes, f'.movedBytes, now, now, now⟩ published.2, f') := by
  rw [tick, foldl_folded]
  rfl

/-- **What is kept over a run**: of each scope all that was said of it, and how much was filed and
moved. -/
theorem Driven.sums (hkeeps : Snapshot.Keeps S) (h : Driven S E P f before) :
    Tells Standing.fold .default f.standings (before.map Judged.entry) ∧
      f.filed = before.countP Judged.filed ∧ f.movedBytes = (before.map Judged.bytes).sum := by
  induction h with
  | new hstandings hfiled hmoved =>
    rw [hstandings]
    exact ⟨tells_empty, hfiled, hmoved⟩
  | tick _ _ ticked ih =>
    obtain ⟨htells, hfiled, hmoved⟩ := ih
    rw [tick_eq] at ticked
    obtain ⟨-, rfl⟩ := Prod.mk.inj ticked
    refine ⟨?_, ?_, ?_⟩
    · rw [List.map_append]
      exact (publish_tells hkeeps htells _ _).1
    · rw [List.countP_append, ← hfiled]
    · rw [List.map_append, List.sum_append, ← hmoved]

theorem scope_judge (E : Rig) (hand : Cabinets) (f : Filing) (pair : Text × Contract) :
    (f.judge E hand pair).scope = pairScope f.node pair := by
  rw [judge]
  split_ifs
  · rfl
  · rfl

private theorem mem_scopes_fileRound {scope : Text} :
    scope ∈ ((f.fileRound E hand).map Judged.entry).map Prod.fst ↔
      ∃ pair ∈ allPairs f.cabinets, scope = pairScope f.node pair := by
  have hscopes : ((f.fileRound E hand).map Judged.entry).map Prod.fst =
    (allPairs f.cabinets).map (pairScope f.node) := by
    rw [fileRound, List.map_map, List.map_map]
    exact List.map_congr_left fun pair _ => scope_judge E hand f pair
  rw [hscopes, List.mem_map]
  simp only [eq_comm]

/-- The leaves a tick publishes. -/
theorem mem_health_tick (hkeeps : Snapshot.Keeps S) (hdriven : Driven S E P f before)
    (hticked : f.tick E hand now = (snapshot, f')) (x : HealthRecord) :
    x ∈ Snapshot.healthRecords snapshot ↔ ∃ pair ∈ allPairs f.cabinets,
      x = (Standing.ofRounds (saidOf (pairScope f.node pair)
        ((before ++ f.next.fileRound E hand).map Judged.entry))).health (pairScope f.node pair)
          now := by
  have hpublished :=
    (publish_tells hkeeps (hdriven.sums hkeeps).1 now
      ((f.next.fileRound E hand).map Judged.entry)).2
  rw [tick_eq] at hticked
  rw [← (Prod.mk.inj hticked).1, hkeeps.health_recordCount, hpublished, mem_scopes_fileRound,
    ← List.map_append]
  constructor
  · rintro ⟨⟨pair, hpair, hscope⟩, hx⟩
    rw [hscope] at hx
    exact ⟨pair, hpair, hx⟩
  · rintro ⟨pair, hpair, rfl⟩
    exact ⟨⟨pair, hpair, rfl⟩, rfl⟩

/-- **What a run publishes.** The leaf of each cabinet and contract is its standing over all its
rounds, and there is no other; what is counted is what moved over the run, and what was handed over
is what was not skipped. -/
theorem filed_tells (hkeeps : Snapshot.Keeps S) (hdriven : Driven S E P f before)
    (hhand : P hand) (hticked : f.tick E hand now = (snapshot, f')) :
    let all := before ++ f.next.fileRound E hand
    (∀ x, x ∈ Snapshot.healthRecords snapshot ↔ ∃ pair ∈ allPairs f.cabinets,
      x = (Standing.ofRounds (saidOf (pairScope f.node pair) (all.map Judged.entry))).health
        (pairScope f.node pair) now) ∧
    (∀ c, c ∈ Snapshot.allCounts snapshot ↔
      c = ⟨f.node, .bytes, (all.map Judged.bytes).sum, now, now, now⟩) ∧
    f'.filed = all.countP Judged.filed := by
  intro all
  obtain ⟨-, hfiled, hmoved⟩ := (hdriven.tick hhand hticked).sums hkeeps
  refine ⟨mem_health_tick hkeeps hdriven hticked, fun c => ?_, hfiled⟩
  rw [tick_eq] at hticked
  obtain ⟨hsnapshot, rfl⟩ := Prod.mk.inj hticked
  rw [← hsnapshot, hkeeps.counts.mem_record, allCounts_publish hkeeps]
  -- what moved is what was handed back over all the rounds
  have hbytes : f.movedBytes + ((f.next.fileRound E hand).map Judged.bytes).sum =
    (all.map Judged.bytes).sum := hmoved
  dsimp only
  rw [hbytes]
  exact or_iff_left fun h => List.not_mem_nil h.1

/-! ### What a judgment says -/

/-- A line that names a field of an item names one that differs. -/
structure Names (line : Text) (filed returned : Cabinet.ArchiveItem) : Prop where
  bytes : line = "the bytes differ".toList → filed.bytes ≠ returned.bytes
  metadata : line = "the metadata differs".toList → filed.metadata ≠ returned.metadata
  identifier : line = "the identifier differs".toList → filed.identifier ≠ returned.identifier
  dataType : line = "the data type differs".toList → filed.dataType ≠ returned.dataType

private theorem names_difference {filed returned : Cabinet.ArchiveItem} (h : filed ≠ returned) :
    Names (difference filed returned) filed returned := by
  unfold difference
  -- In turn: each field is named where it differs and those before it do not.
  split_ifs with hbytes hmetadata hidentifier
  · exact ⟨fun _ => hbytes, fun h => absurd h (by decide), fun h => absurd h (by decide),
      fun h => absurd h (by decide)⟩
  · exact ⟨fun h => absurd h (by decide), fun _ => hmetadata, fun h => absurd h (by decide),
      fun h => absurd h (by decide)⟩
  · exact ⟨fun h => absurd h (by decide), fun h => absurd h (by decide), fun _ => hidentifier,
      fun h => absurd h (by decide)⟩
  · refine ⟨fun h => absurd h (by decide), fun h => absurd h (by decide),
      fun h => absurd h (by decide), fun _ htype => h ?_⟩
    obtain ⟨dataType, identifier, bytes, metadata⟩ := filed
    obtain ⟨dataType', identifier', bytes', metadata'⟩ := returned
    rw [Cabinet.ArchiveItem.mk.injEq]
    exact ⟨htype, not_not.mp hidentifier, not_not.mp hbytes, not_not.mp hmetadata⟩

/-- A probe says which round and which contract it is of. -/
theorem probe_inj {f' : Filing} {contract contract' : Contract}
    (h : f.probe E contract = f'.probe E contract') :
    f.round = f'.round ∧ contract = contract' := by
  have hround := congrArg (fun item : Cabinet.ArchiveItem => item.metadata) h
  simp only [probe, List.cons.injEq, Prod.mk.injEq, and_true, true_and] at hround
  exact ⟨decimal_injective hround,
    Contract.name_injective (congrArg Cabinet.ArchiveItem.dataType h)⟩

private theorem judge_skipped (E : Rig) (hand : Cabinets) {pair : Text × Contract}
    (h : f.skipped pair = true) :
    f.judge E hand pair =
      ⟨pairScope f.node pair, .fail,
        "the cabinet was skipped this round: the item was not filed".toList, false, 0⟩ := by
  rw [judge, if_pos h]

private theorem judge_failed {pair : Text × Contract} {why : Text}
    (hskipped : f.skipped pair = false) (h : hand pair.1 (f.probe E pair.2) = .failed why) :
    f.judge E hand pair = ⟨pairScope f.node pair, .fail, why, true, 0⟩ := by
  rw [judge, hskipped, if_neg Bool.false_ne_true]
  dsimp only
  rw [h]

private theorem judge_returned {pair : Text × Contract} {back : Cabinet.ArchiveItem}
    (hskipped : f.skipped pair = false) (h : hand pair.1 (f.probe E pair.2) = .returned back) :
    f.judge E hand pair =
      let item := f.probe E pair.2
      if back = item then
        ⟨pairScope f.node pair, .pass, decimal item.bytes.length ++
          " bytes filed and returned whole".toList, true, item.bytes.length * 2⟩
      else ⟨pairScope f.node pair, .fail, "returned, but ".toList ++ difference item back, true,
        item.bytes.length⟩ := by
  rw [judge, hskipped, if_neg Bool.false_ne_true]
  dsimp only
  rw [h]
  dsimp only
  split_ifs <;> rfl

/-- **What a judgment says is so.** It passes just what came back as it was filed, by a cabinet not
skipped; a difference it names is one; and another round's or another contract's probe never passes
for this one's. -/
theorem judge_exact (E : Rig) (hand : Cabinets) (f : Filing) (pair : Text × Contract) :
    let item := f.probe E pair.2
    let judged := f.judge E hand pair
    (judged.mark = .pass ↔ f.skipped pair = false ∧ hand pair.1 item = .returned item) ∧
      (judged.mark = .pass ∨ judged.mark = .fail) ∧
      (∀ returned, f.skipped pair = false → hand pair.1 item = .returned returned →
        returned ≠ item →
        ∃ line, judged.line = "returned, but ".toList ++ line ∧ Names line item returned) ∧
      ∀ (f' : Filing) (contract : Contract), (f'.round, contract) ≠ (f.round, pair.2) →
        hand pair.1 item = .returned (f'.probe E contract) → judged.mark = .fail := by
  intro item judged
  cases hskipped : f.skipped pair with
  -- skipped: failed, with the line of a skip
  | true =>
    have hjudged : judged.mark = .fail := by rw [show judged = _ from judge_skipped E hand hskipped]
    rw [hjudged]
    exact ⟨iff_of_false nofun fun h => Bool.noConfusion h.1, .inr rfl,
      fun _ h => Bool.noConfusion h, fun _ _ _ _ => rfl⟩
  | false =>
    cases hhand : hand pair.1 item with
    -- refused: failed, with the refusal's own line
    | failed why =>
      have hjudged : judged.mark = .fail := by rw [show judged = _ from judge_failed hskipped hhand]
      rw [hjudged]
      exact ⟨iff_of_false nofun fun h => Filed.noConfusion h.2, .inr rfl,
        fun _ _ h => Filed.noConfusion h, fun _ _ _ _ => rfl⟩
    | returned back =>
      -- the item itself: it passes, and then it is no other round's nor another contract's probe
      by_cases hback : back = item
      · have hjudged : judged.mark = .pass := by
          rw [show judged = _ from judge_returned hskipped hhand, if_pos hback]
        rw [hjudged, hback]
        refine ⟨iff_of_true rfl ⟨rfl, rfl⟩, .inl rfl, fun returned _ h hne => ?_,
          fun f' contract hne h => ?_⟩
        · exact absurd (Filed.returned.inj h).symm hne
        · obtain ⟨hround, hcontract⟩ := probe_inj (Filed.returned.inj h)
          exact absurd (Prod.ext hround.symm hcontract.symm) hne
      · -- another item: the line names a field that differs
        have hjudged : judged = _ := judge_returned hskipped hhand
        rw [if_neg hback] at hjudged
        rw [hjudged]
        refine ⟨iff_of_false nofun fun h => hback (Filed.returned.inj h.2), .inr rfl,
          fun returned _ h hne => ?_, fun _ _ _ _ => rfl⟩
        -- what it came back as is what was judged
        obtain rfl := Filed.returned.inj h
        exact ⟨_, rfl, names_difference (Ne.symm hne)⟩

/-! ### Nothing lost -/

/-- Every cabinet returns what it is handed. -/
def Whole (hand : Cabinets) : Prop := ∀ technology item, hand technology item = .returned item

private theorem pass_of_whole (hhand : Whole hand) (hstress : f.stress = none) :
    ∀ judged ∈ f.fileRound E hand, judged.mark = .pass := by
  intro judged hjudged
  obtain ⟨pair, -, rfl⟩ := List.mem_map.mp hjudged
  have hskipped : f.skipped pair = false := by rw [skipped, hstress]
  rw [judge_returned hskipped (hhand _ _)]
  dsimp only
  rw [if_pos rfl]

private theorem Driven.pass (h : Driven S E Whole f before) (hstress : f.stress = none) :
    ∀ judged ∈ before, judged.mark = .pass := by
  induction h with
  | new => exact fun _ h => absurd h List.not_mem_nil
  | tick _ hhand ticked ih =>
    rw [tick_eq] at ticked
    obtain ⟨-, rfl⟩ := Prod.mk.inj ticked
    exact List.forall_mem_append.mpr ⟨ih hstress, pass_of_whole hhand hstress⟩

/-- **Where every cabinet returns what it is handed and none is skipped, nothing is ever marked**:
every leaf is fine after every tick. -/
theorem whole_fine (hkeeps : Snapshot.Keeps S) (hdriven : Driven S E Whole f before)
    (hstress : f.stress = none) (hhand : Whole hand)
    (hticked : f.tick E hand now = (snapshot, f')) :
    ∀ x ∈ Snapshot.healthRecords snapshot, x.health = .fine := by
  intro x hx
  obtain ⟨pair, hpair, rfl⟩ := (mem_health_tick hkeeps hdriven hticked x).mp hx
  have hpass : ∀ judged ∈ before ++ f.next.fileRound E hand, judged.mark = .pass :=
    List.forall_mem_append.mpr ⟨hdriven.pass hstress, pass_of_whole hhand hstress⟩
  refine Standing.fine_of_pass ?_ fun one hone => ?_
  · -- Its pair was judged in the round just ended.
    rw [Ne, saidOf_eq_nil, not_not, List.map_append, List.map_append]
    exact List.mem_append_right _ (mem_scopes_fileRound.mpr ⟨pair, hpair, rfl⟩)
  · obtain ⟨entry, hentry, rfl⟩ := List.mem_map.mp hone
    obtain ⟨judged, hjudged, rfl⟩ := List.mem_map.mp (List.mem_filter.mp hentry).1
    exact hpass judged hjudged

/-! ### A filing through one cabinet -/

/-- A filing of one cabinet that returns what it is handed. -/
def returning : Cabinets := fun _ item => .returned item

private theorem exists_tick (E : Rig) (hand : Cabinets) (now : Int) (f : Filing) :
    ∃ (snapshot : S) (f' : Filing), f.tick E hand now = (snapshot, f') := ⟨_, _, rfl⟩

theorem filed_tells_returning : ∃ snapshot : Records, ∀ contract,
    ∃ x ∈ Snapshot.healthRecords snapshot, x.scope = pairScope ['n'] ("file".toList, contract) := by
  obtain ⟨snapshot, f', hticked⟩ :=
    exists_tick (S := Records) plainEstate.rig returning 1 (new ['n'] ["file".toList])
  have htells := filed_tells (P := Whole) Records.keeps (.new rfl rfl rfl) (fun _ _ => rfl) hticked
  refine ⟨snapshot, fun contract => ⟨_, (htells.1 _).mpr ⟨("file".toList, contract), ?_, rfl⟩, rfl⟩⟩
  exact List.mem_flatMap.mpr ⟨_, List.mem_singleton_self _,
    List.mem_map.mpr ⟨contract, Contract.mem_contracts contract, rfl⟩⟩

theorem whole_fine_returning : ∃ (snapshot : Records) (f' : Filing),
    (new ['n'] ["file".toList]).tick plainEstate.rig returning 1 = (snapshot, f') ∧
      ∀ x ∈ Snapshot.healthRecords snapshot, x.health = .fine := by
  obtain ⟨snapshot, f', hticked⟩ :=
    exists_tick (S := Records) plainEstate.rig returning 1 (new ['n'] ["file".toList])
  exact ⟨snapshot, f', hticked, whole_fine Records.keeps (.new rfl rfl rfl) rfl (fun _ _ => rfl)
    hticked⟩

end Filing

end XmipEssentials
