import Mathlib.Data.List.AList
import Mathlib.Data.List.Perm.Subperm
import XmipEssentials.Fault
import XmipEssentials.Standing

/-!
# Retention

Items are created at one per content class and simulated day, kept while they are young, and
archived once they pass their window. Nothing is deleted. Under a level a sweep is missed, or the
archive refuses an item, by the same hash every injected fault fires by; what is missed stays live.

`born` lists what a run has created by the days it has emitted, and `Conserved` says that after any
tick the live items and the archived ones are that list, each item once: whatever the clock does,
and whatever is missed.
-/

namespace XmipEssentials

open Text

/-! ### The window and the archive -/

/-- Seconds in a day. -/
def SECONDS_PER_DAY : Nat := 86400

/-- How often, in percent of rounds, a sweep of one class is missed. -/
def MISS_RATE : UInt8 := 5

/-- How long an item is retained before it is archived, in days. -/
def KEEP_DAYS : Nat := 90

/-- How many days one tick may create at once. -/
def MAX_DAYS_PER_TICK : Nat := 60

/-- What becomes of an item. -/
inductive RetentionAction where
  | keep
  | archive
  deriving DecidableEq, Repr

/-- The retention window: keep while young, then archive. -/
def Windows.actionFor (_dataType : Text) (age : Nat) : RetentionAction :=
  if age / SECONDS_PER_DAY < KEEP_DAYS then .keep else .archive

/-- What the archive store is given of an item. -/
structure ArchiveItem where
  dataType : Text
  identifier : Text
  deriving DecidableEq, Repr

/-- What the store refuses starts so. -/
def poison : Text := "poison-".toList

/-- An archive store in memory: what it was given, the last last. -/
structure MemoryArchive where
  held : List ArchiveItem

/-- An item archived: where it is and the store with it, or why the store refused it. -/
def MemoryArchive.archive (s : MemoryArchive) (item : ArchiveItem) :
    Except Text (Text × MemoryArchive) :=
  if poison <+: item.identifier then
    .error ("the archive store rejected ".toList ++ item.identifier)
  else .ok ("mem://".toList ++ item.dataType ++ '/' :: item.identifier, ⟨s.held ++ [item]⟩)

/-! ### The test -/

/-- One item, stamped with the simulated second it was created. -/
structure Item where
  contract : Contract
  createdSecs : Nat
  id : Nat
  deriving DecidableEq, Repr

/-- A stage of the retention lifecycle. -/
inductive Sweep where
  | retain
  | archive
  deriving DecidableEq, Repr

namespace Sweep

def all : List Sweep := [retain, archive]

def name : Sweep → Text
  | retain => "retain".toList
  | archive => "archive".toList

end Sweep

/-- The leaks found in a round, by class. -/
structure Leaks where
  retain : List Text
  archive : List Text

/-- The retention test. -/
structure Retention where
  node : Text
  store : MemoryArchive
  live : List Item
  archived : List Item
  round : Nat
  emittedDays : Nat
  nextId : Nat
  /-- The level, when one was set. -/
  stress : Option Stress
  standings : AList fun _ : Text => Standing

/-- A retention test publishing under `node`, missing no sweeps. -/
def Retention.new (node : Text) : Retention where
  node := node
  store := ⟨[]⟩
  live := []
  archived := []
  round := 0
  emittedDays := 0
  nextId := 0
  stress := none
  standings := ∅

/-- The same test at a level. -/
def Retention.at (r : Retention) (stress : Stress) : Retention := { r with stress := some stress }

namespace Retention

/-- An item of the class created on the last day emitted. -/
def push (r : Retention) (contract : Contract) : Retention :=
  { r with
    live := r.live ++ [⟨contract, r.emittedDays * SECONDS_PER_DAY, r.nextId⟩]
    nextId := r.nextId + 1 }

/-- The next day emitted: an item of every class. -/
def createDay (r : Retention) : Retention :=
  contracts.foldl push { r with emittedDays := r.emittedDays + 1 }

/-- So many days emitted. -/
def createDays : Nat → Retention → Retention
  | 0, r => r
  | days + 1, r => createDays days r.createDay

/-- An item of every class for every simulated day newly reached, so many days at most. -/
def createThrough (r : Retention) (nowSecs : Nat) : Retention :=
  let today := nowSecs / SECONDS_PER_DAY
  let target := min today (r.emittedDays + MAX_DAYS_PER_TICK)
  createDays (target - r.emittedDays) r

/-- How long ago an item was created; none at all where the clock stands before that. -/
def ageOf (nowSecs : Nat) (item : Item) : Nat := nowSecs - item.createdSecs

/-- Whether a sweep of the kind is missed for this class this round. -/
def miss (r : Retention) (kind : Text) (contract : Contract) : Bool :=
  match r.stress with
  | none => false
  | some stress =>
    firesKeyed (scaledRate MISS_RATE stress) (kind ++ '/' :: contract.name) r.round

/-- A sweep under way: the test, the leaks found, and the items kept so far. -/
structure Sweeping where
  test : Retention
  leaks : Leaks
  kept : List Item

/-- What is archived of an item. -/
def archiveItem (item : Item) (poisoned : Bool) : ArchiveItem where
  dataType := item.contract.name
  identifier := (if poisoned then poison else []) ++ item.contract.name ++ '#' :: decimal item.id

/-- An aged item archived, or kept as a leak: where the sweep misses it, or the store refuses it. -/
def tryArchive (s : Sweeping) (item : Item) : Sweeping :=
  let name := item.contract.name
  if s.test.miss "archive-skip".toList item.contract then
    { s with leaks := { s.leaks with retain := name :: s.leaks.retain }, kept := s.kept ++ [item] }
  else
    let poisoned := s.test.miss "archive-fault".toList item.contract
    match s.test.store.archive (archiveItem item poisoned) with
    | .error _ =>
      { s with
        leaks := { s.leaks with archive := name :: s.leaks.archive }
        kept := s.kept ++ [item] }
    | .ok (_, store) =>
      { s with test := { s.test with store, archived := s.test.archived ++ [item] } }

/-- One live item swept: kept while young, else archived. -/
def sweepItem (nowSecs : Nat) (s : Sweeping) (item : Item) : Sweeping :=
  match Windows.actionFor item.contract.name (ageOf nowSecs item) with
  | .keep => { s with kept := s.kept ++ [item] }
  | .archive => tryArchive s item

/-- The live items swept. -/
def sweepLive (r : Retention) (nowSecs : Nat) : Retention × Leaks :=
  let swept := r.live.foldl (sweepItem nowSecs) ⟨{ r with live := [] }, ⟨[], []⟩, []⟩
  ({ swept.test with live := swept.kept }, swept.leaks)

/-- How many items of a class. -/
def countOf (items : List Item) (contract : Contract) : Nat :=
  (items.filter fun item => item.contract = contract).length

def retainLine (r : Retention) (contract : Contract) (leaks : Leaks) : Text :=
  if contract.name ∈ leaks.retain then
    "retention leak: an item past its window is still live".toList
  else decimal (countOf r.live contract) ++ " retained within the window".toList

def archiveLine (r : Retention) (contract : Contract) (leaks : Leaks) : Text :=
  if contract.name ∈ leaks.archive then "the archive store refused an item".toList
  else decimal (countOf r.archived contract) ++ " archived".toList

/-- The verdict for one stage and class, folded over time. -/
def verdict (r : Retention) (sweep : Sweep) (contract : Contract) (leaks : Leaks) (now : Int) :
    HealthRecord × Retention :=
  let scope := r.node ++ '/' :: sweep.name ++ '/' :: contract.name
  let (leaked, line) :=
    match sweep with
    | .retain => (leaks.retain, r.retainLine contract leaks)
    | .archive => (leaks.archive, r.archiveLine contract leaks)
  let mark := if contract.name ∈ leaked then Mark.fail else .pass
  let standing := ((r.standings.lookup scope).getD .default).record mark line
  (standing.health scope now, { r with standings := r.standings.insert scope standing })

variable {S : Type} [Snapshot S]

/-- Every stage's and class's verdict published. -/
def publish (leaks : Leaks) (now : Int) : List (Sweep × Contract) → Retention → S → S × Retention
  | [], r, snapshot => (snapshot, r)
  | (sweep, contract) :: rest, r, snapshot =>
    let (record, r) := r.verdict sweep contract leaks now
    publish leaks now rest r (Snapshot.recordHealth record snapshot)

/-- One round at simulated second `nowSecs`: create an item per class for each day newly reached,
age and sweep everything, and publish a verdict per stage and class. -/
def tick (r : Retention) (nowSecs : Nat) (now : Int) : S × Retention :=
  let r := { r with round := r.round + 1 }
  let (r, leaks) := (r.createThrough nowSecs).sweepLive nowSecs
  publish leaks now (Sweep.all.flatMap fun sweep => contracts.map fun contract => (sweep, contract))
    r Snapshot.new

/-! ### What is created -/

/-- The items of one day, counted from zero, with ids from its first on. -/
def bornOn (day : Nat) : List Item :=
  (contracts.zipIdx (day * contracts.length)).map fun one =>
    ⟨one.1, (day + 1) * SECONDS_PER_DAY, one.2⟩

/-- The items of so many days from `day` on. -/
def bornSince (day days : Nat) : List Item := (List.range' day days).flatMap bornOn

/-- The items of the first days. -/
def born (days : Nat) : List Item := bornSince 0 days

private theorem born_add (days more : Nat) :
    born (days + more) = born days ++ bornSince days more := by
  unfold born bornSince
  rw [← List.flatMap_append]
  congr 1
  rw [← List.range'_append_1, Nat.zero_add]

private theorem mem_bornOn {day : Nat} {item : Item} : item ∈ bornOn day ↔
    ∃ place, contracts[place]? = some item.contract ∧
    item.createdSecs = (day + 1) * SECONDS_PER_DAY ∧
      item.id = day * contracts.length + place := by
  unfold bornOn
  rw [List.mem_map]
  constructor
  · rintro ⟨⟨contract, id⟩, hone, rfl⟩
    obtain ⟨hle, hget⟩ := List.mem_zipIdx_iff_le_and_getElem?_sub.mp hone
    exact ⟨_, hget, rfl, (Nat.add_sub_cancel' hle).symm⟩
  · rintro ⟨place, hplace, hcreated, hid⟩
    refine ⟨(item.contract, item.id), ?_, ?_⟩
    · rw [List.mem_zipIdx_iff_le_and_getElem?_sub]
      dsimp only
      rw [hid]
      exact ⟨Nat.le_add_right _ _, by rwa [Nat.add_sub_cancel_left]⟩
    · rw [← hcreated]

private theorem mem_bornSince {day days : Nat} {item : Item} :
    item ∈ bornSince day days ↔ ∃ d, day ≤ d ∧ d < day + days ∧ item ∈ bornOn d := by
  unfold bornSince
  rw [List.mem_flatMap]
  simp only [List.mem_range'_1, and_assoc]

/-- An id says the day and the place in it. -/
theorem id_inj {day day' place place' : Nat} (h : place < contracts.length)
    (h' : place' < contracts.length)
    (heq : day * contracts.length + place = day' * contracts.length + place') :
    day = day' ∧ place = place' := by
  have hcount : contracts.length = 20 := rfl
  rw [hcount] at h h' heq
  -- Twenty classes a day: the quotient is the day, and the remainder the place.
  omega

private theorem lt_of_getElem? {place : Nat} {contract : Contract}
    (h : contracts[place]? = some contract) :
    place < contracts.length :=
  (List.getElem?_eq_some_iff.mp h).1

/-- Ids are never reused. -/
theorem nodup_id_bornSince (day days : Nat) : ((bornSince day days).map Item.id).Nodup := by
  -- one day's ids are the run of numbers from its place on
  have hone (d : Nat) : (bornOn d).map Item.id = List.range' (d * contracts.length)
    contracts.length := by
    unfold bornOn
    rw [List.map_map]
    exact List.zipIdx_map_snd _ _
  induction days generalizing day with
  | zero => exact List.nodup_nil
  | succ days ih =>
    unfold bornSince
    rw [List.range'_succ, List.flatMap_cons, List.map_append, List.nodup_append']
    refine ⟨?_, ih (day + 1), ?_⟩
    · rw [hone]
      exact List.nodup_range'
    · -- The ids of a later day start past this one's.
      intro id hid hlater
      obtain ⟨item, hitem, rfl⟩ := List.mem_map.mp hid
      obtain ⟨other, hother, heq⟩ := List.mem_map.mp hlater
      obtain ⟨d, hd, -, hother⟩ := mem_bornSince.mp hother
      obtain ⟨place, hplace, -, hid⟩ := mem_bornOn.mp hitem
      obtain ⟨place', hplace', -, hid'⟩ := mem_bornOn.mp hother
      rw [hid, hid'] at heq
      have hday := (id_inj (lt_of_getElem? hplace') (lt_of_getElem? hplace) heq).1
      omega

private theorem createdSecs_inj {day day' : Nat}
    (h : (day + 1) * SECONDS_PER_DAY = (day' + 1) * SECONDS_PER_DAY) : day = day' := by
  have hpos : 0 < SECONDS_PER_DAY := by decide
  exact Nat.succ.inj (Nat.eq_of_mul_eq_mul_right hpos h)

/-- One item of each class is born each day. -/
theorem existsUnique_born {days day : Nat} (hday : day < days) (contract : Contract) :
    ∃! item, item ∈ born days ∧ item.contract = contract ∧
      item.createdSecs = (day + 1) * SECONDS_PER_DAY := by
  obtain ⟨place, hplace⟩ := List.getElem?_of_mem (Contract.mem_contracts contract)
  refine ⟨⟨contract, (day + 1) * SECONDS_PER_DAY, day * contracts.length + place⟩, ⟨?_, rfl, rfl⟩,
    ?_⟩
  · refine mem_bornSince.mpr ⟨day, Nat.zero_le _, by omega, ?_⟩
    exact mem_bornOn.mpr ⟨place, hplace, rfl, rfl⟩
  · rintro item ⟨hitem, hcontract, hcreated⟩
    obtain ⟨d, -, -, hitem⟩ := mem_bornSince.mp hitem
    obtain ⟨place', hplace', hcreated', hid⟩ := mem_bornOn.mp hitem
    rw [hcreated] at hcreated'
    obtain rfl := createdSecs_inj hcreated'
    -- A class has one place among the classes.
    rw [hcontract] at hplace'
    have hsame : place = place' :=
      (List.getElem?_inj (lt_of_getElem? hplace) Contract.nodup_contracts).mp
        (hplace.trans hplace'.symm)
    obtain ⟨c, created, id⟩ := item
    dsimp only at hcontract hcreated hid
    rw [hcontract, hcreated, hid, hsame]

private theorem foldl_push (l : List Contract) (r : Retention) : l.foldl push r =
    { r with
      live := r.live ++ (l.zipIdx r.nextId).map fun one =>
        ⟨one.1, r.emittedDays * SECONDS_PER_DAY, one.2⟩
      nextId := r.nextId + l.length } := by
  induction l generalizing r with
  | nil => simp
  | cons contract l ih =>
    rw [List.foldl_cons, ih]
    simp [push, List.zipIdx_cons, Nat.add_assoc, Nat.add_comm 1]

/-- **Days emitted** are days born, where ids stand as the days emitted have left them. -/
theorem createDays_eq (days : Nat) (r : Retention)
    (hid : r.nextId = r.emittedDays * contracts.length) : createDays days r =
      { r with
        live := r.live ++ bornSince r.emittedDays days
        emittedDays := r.emittedDays + days
        nextId := (r.emittedDays + days) * contracts.length } := by
  induction days generalizing r with
  | zero =>
    obtain ⟨node, store, live, archived, round, emittedDays, nextId, stress, standings⟩ := r
    simp only at hid
    simp [createDays, bornSince, hid]
  | succ days ih =>
    -- a day created adds one item a contract, numbered on from the last
    have hday : r.createDay = { r with
        live := r.live ++ bornOn r.emittedDays
        emittedDays := r.emittedDays + 1
        nextId := (r.emittedDays + 1) * contracts.length } := by
      unfold createDay bornOn
      rw [foldl_push]
      dsimp only
      rw [hid, Nat.succ_mul r.emittedDays contracts.length]
    unfold createDays
    rw [hday, ih _ rfl]
    simp [bornSince, List.range'_succ, Nat.add_assoc, Nat.add_comm 1]

/-! ### What a sweep does -/

/-- An item has passed its window. -/
def Aged (nowSecs : Nat) (item : Item) : Prop := KEEP_DAYS ≤ ageOf nowSecs item / SECONDS_PER_DAY

instance (nowSecs : Nat) : DecidablePred (Aged nowSecs) := fun _ => Nat.decLe _ _

theorem actionFor_eq (nowSecs : Nat) (item : Item) :
    Windows.actionFor item.contract.name (ageOf nowSecs item) =
      if Aged nowSecs item then .archive else .keep := by
  unfold Windows.actionFor
  by_cases haged : Aged nowSecs item
  · rw [if_pos haged, if_neg (not_lt.mpr haged)]
  · rw [if_neg haged, if_pos (not_le.mp haged)]

/-- A sweep has gone from `s` to `s'` over the items: each is kept or archived, and only the aged
are archived; where no level is set, all of them are. -/
structure Swept (nowSecs : Nat) (items : List Item) (s s' : Sweeping) : Prop where
  kept : ∃ kept archived, s'.kept = s.kept ++ kept ∧
    s'.test = { s.test with
      store := ⟨s.test.store.held ++ archived.map (archiveItem · false)⟩
      archived := s.test.archived ++ archived } ∧
    (kept ++ archived).Perm items ∧ (∀ item ∈ archived, Aged nowSecs item) ∧
    (s.test.stress = none → kept = items.filter fun item => ¬Aged nowSecs item)

/-- No store takes an item called as the poisoned are for one that is not. -/
theorem not_poison (item : Item) : ¬poison <+: (archiveItem item false).identifier := by
  intro hprefix
  have hfalse : poison.isPrefixOf (archiveItem item false).identifier = false := by
    obtain ⟨contract, created, id⟩ := item
    -- No class is called so, and the name comes first in what is archived.
    cases contract <;> rfl
  rw [List.isPrefixOf_iff_prefix.mpr hprefix] at hfalse
  cases hfalse

theorem archive_eq (store : MemoryArchive) (item : Item) :
    ∃ location, store.archive (archiveItem item false) =
      .ok (location, ⟨store.held ++ [archiveItem item false]⟩) := by
  unfold MemoryArchive.archive
  rw [if_neg (not_poison item)]
  exact ⟨_, rfl⟩

theorem archive_poisoned (store : MemoryArchive) (item : Item) :
    ∃ why, store.archive (archiveItem item true) = .error why := by
  have hrefused : poison <+: (archiveItem item true).identifier := by
    refine ⟨item.contract.name ++ '#' :: decimal item.id, ?_⟩
    unfold archiveItem
    simp
  unfold MemoryArchive.archive
  rw [if_pos hrefused]
  exact ⟨_, rfl⟩

private theorem swept_keep {nowSecs : Nat} {item : Item} {s s' : Sweeping}
    (hkept : s'.kept = s.kept ++ [item]) (htest : s'.test = s.test)
    (hyoung : s.test.stress = none → ¬Aged nowSecs item) :
    Swept nowSecs [item] s s' := by
  refine ⟨[item], [], hkept, ?_, ?_, ?_, fun hnone => ?_⟩
  · rw [htest, List.map_nil, List.append_nil, List.append_nil]
  · rw [List.append_nil]
  · intro _ hmem
    exact absurd hmem List.not_mem_nil
  · rw [List.filter_singleton, decide_eq_true (hyoung hnone)]
    rfl

/-- One item swept. -/
theorem swept_item (nowSecs : Nat) (s : Sweeping) (item : Item) :
    Swept nowSecs [item] s (sweepItem nowSecs s item) := by
  unfold sweepItem
  rw [actionFor_eq]
  by_cases haged : Aged nowSecs item
  · rw [if_pos haged]
    dsimp only
    unfold tryArchive
    dsimp only
    -- Without a level no sweep is missed and nothing is refused.
    have hmiss (kind : Text) (hnone : s.test.stress = none) :
      s.test.miss kind item.contract = false := by
      unfold miss
      rw [hnone]
    split
    · next hskip =>
      refine swept_keep rfl rfl fun hnone => ?_
      rw [hmiss _ hnone] at hskip
      cases hskip
    · cases hpoisoned : s.test.miss "archive-fault".toList item.contract with
      | true =>
        have hkeep : s.test.stress = none → ¬Aged nowSecs item := by
          intro hnone
          rw [hmiss _ hnone] at hpoisoned
          cases hpoisoned
        obtain ⟨why, harchive⟩ := archive_poisoned s.test.store item
        rw [harchive]
        exact swept_keep rfl rfl hkeep
      | false =>
        obtain ⟨location, harchive⟩ := archive_eq s.test.store item
        rw [harchive]
        refine ⟨[], [item], (List.append_nil _).symm, rfl, List.Perm.refl _, ?_, fun _ => ?_⟩
        · intro one hone
          rwa [List.mem_singleton.mp hone]
        · rw [List.filter_singleton, decide_eq_false (not_not.mpr haged)]
          rfl
  · rw [if_neg haged]
    exact swept_keep rfl rfl fun _ => haged

private theorem Swept.trans {nowSecs : Nat} {items more : List Item} {s s' s'' : Sweeping}
    (h : Swept nowSecs items s s') (h' : Swept nowSecs more s' s'') :
    Swept nowSecs (items ++ more) s s'' := by
  obtain ⟨kept, archived, hkept, htest, hperm, haged, hall⟩ := h.kept
  obtain ⟨kept', archived', hkept', htest', hperm', haged', hall'⟩ := h'.kept
  refine ⟨kept ++ kept', archived ++ archived', ?_, ?_, ?_, ?_, fun hnone => ?_⟩
  · rw [hkept', hkept, List.append_assoc]
  · rw [htest', htest, List.map_append, List.append_assoc, List.append_assoc]
  · have hswap : (kept' ++ (archived ++ archived')).Perm (archived ++ (kept' ++ archived')) := by
      rw [← List.append_assoc, ← List.append_assoc]
      exact List.perm_append_comm.append_right archived'
    calc (kept ++ kept') ++ (archived ++ archived')
        = kept ++ (kept' ++ (archived ++ archived')) := List.append_assoc ..
      List.Perm _ (kept ++ (archived ++ (kept' ++ archived'))) := hswap.append_left kept
      _ = (kept ++ archived) ++ (kept' ++ archived') := (List.append_assoc ..).symm
      List.Perm _ (items ++ more) := hperm.append hperm'
  · intro item hitem
    exact (List.mem_append.mp hitem).elim (haged item) (haged' item)
  · rw [List.filter_append, ← hall hnone, ← hall' (by rw [htest]; exact hnone)]

/-- **A sweep** over any items. -/
theorem swept_foldl (nowSecs : Nat) (items : List Item) (s : Sweeping) :
    Swept nowSecs items s (items.foldl (sweepItem nowSecs) s) := by
  induction items generalizing s with
  | nil => exact ⟨[], [], (List.append_nil _).symm, by simp, List.Perm.refl _,
    fun _ hmem => absurd hmem List.not_mem_nil, fun _ => rfl⟩
  | cons item items ih =>
    exact (swept_item nowSecs s item).trans (ih (sweepItem nowSecs s item))

/-- The live items after a sweep are those it kept. -/
theorem sweepLive_eq (r : Retention) (nowSecs : Nat) : ∃ kept archived leaks,
    r.sweepLive nowSecs = ({ r with
      live := kept
      store := ⟨r.store.held ++ archived.map (archiveItem · false)⟩
      archived := r.archived ++ archived }, leaks) ∧
    (kept ++ archived).Perm r.live ∧ (∀ item ∈ archived, Aged nowSecs item) ∧
    (r.stress = none → kept = r.live.filter fun item => ¬Aged nowSecs item) := by
  obtain ⟨kept, archived, hkept, htest, hperm, haged, hall⟩ :=
    (swept_foldl nowSecs r.live ⟨{ r with live := [] }, ⟨[], []⟩, []⟩).kept
  refine ⟨kept, archived, (r.sweepLive nowSecs).2, Prod.ext ?_ rfl, hperm, haged, hall⟩
  change ({ Sweeping.test _ with live := Sweeping.kept _ } : Retention) = _
  rw [htest, hkept]
  rfl

/-! ### What a tick does -/

/-- How many days a tick emits. -/
def reached (r : Retention) (nowSecs : Nat) : Nat :=
  min (nowSecs / SECONDS_PER_DAY) (r.emittedDays + MAX_DAYS_PER_TICK) - r.emittedDays

theorem createThrough_eq (r : Retention) (nowSecs : Nat)
    (hid : r.nextId = r.emittedDays * contracts.length) : r.createThrough nowSecs =
      { r with
        live := r.live ++ bornSince r.emittedDays (r.reached nowSecs)
        emittedDays := r.emittedDays + r.reached nowSecs
        nextId := (r.emittedDays + r.reached nowSecs) * contracts.length } :=
  createDays_eq (r.reached nowSecs) r hid

theorem publish_eq (leaks : Leaks) (now : Int) (l : List (Sweep × Contract)) (r : Retention)
    (snapshot : S) : ∃ standings, (publish leaks now l r snapshot).2 = { r with standings } := by
  induction l generalizing r snapshot with
  | nil => exact ⟨r.standings, rfl⟩
  | cons one l ih =>
    obtain ⟨sweep, contract⟩ := one
    unfold publish
    obtain ⟨standings, heq⟩ := ih (r.verdict sweep contract leaks now).2
      (Snapshot.recordHealth (r.verdict sweep contract leaks now).1 snapshot)
    exact ⟨standings, heq.trans rfl⟩

/-- **One tick**, where ids stand as the days emitted have left them: the days reached are born, and
every item then live stays or is archived. -/
theorem tick_eq (S : Type) [Snapshot S] (r : Retention) (nowSecs : Nat) (now : Int)
    (hid : r.nextId = r.emittedDays * contracts.length) : ∃ kept archived standings,
    (r.tick nowSecs now : S × Retention).2 = { r with
      round := r.round + 1
      live := kept
      store := ⟨r.store.held ++ archived.map (archiveItem · false)⟩
      archived := r.archived ++ archived
      emittedDays := r.emittedDays + r.reached nowSecs
      nextId := (r.emittedDays + r.reached nowSecs) * contracts.length
      standings } ∧
    (kept ++ archived).Perm (r.live ++ bornSince r.emittedDays (r.reached nowSecs)) ∧
    (∀ item ∈ archived, Aged nowSecs item) ∧
    (r.stress = none → kept = (r.live ++ bornSince r.emittedDays (r.reached nowSecs)).filter
      fun item => ¬Aged nowSecs item) := by
  -- first the days due are created, then what is live is swept, then the round is published
  have hcreate := createThrough_eq { r with round := r.round + 1 } nowSecs hid
  obtain ⟨kept, archived, leaks, hsweep, hperm, haged, hall⟩ :=
    sweepLive_eq (createThrough { r with round := r.round + 1 } nowSecs) nowSecs
  -- publishing changes the standings alone
  obtain ⟨standings, hpublish⟩ := publish_eq leaks now
    (Sweep.all.flatMap fun sweep => contracts.map fun contract => (sweep, contract))
    (sweepLive (createThrough { r with round := r.round + 1 } nowSecs) nowSecs).1
    (Snapshot.new : S)
  refine ⟨kept, archived, standings, ?_, ?_, haged, fun hnone => ?_⟩
  · unfold tick
    -- each step's own equation, put one into the other
    dsimp only
    rw [hsweep] at hpublish ⊢
    rw [hpublish, hcreate]
    rfl
  · rw [hcreate] at hperm
    exact hperm
  · rw [hcreate] at hall
    exact hall hnone

/-! ### Whole runs -/

/-- The bookkeeping is exact: what is live and what is archived is what was born, each item once. -/
structure Conserved (r : Retention) : Prop where
  nextId : r.nextId = r.emittedDays * contracts.length
  perm : (r.live ++ r.archived).Perm (born r.emittedDays)
  held : r.store.held = r.archived.map (archiveItem · false)
  bounded : r.stress = none → ∀ contract, countOf r.live contract ≤ KEEP_DAYS

/-- A test no tick has run, missing no sweeps or at a level. -/
def start (node : Text) (stress : Option Stress) : Retention :=
  stress.elim (Retention.new node) (Retention.new node).at

theorem conserved_start (node : Text) (stress : Option Stress) : Conserved (start node stress) := by
  cases stress with
  | none => exact ⟨rfl, List.Perm.refl _, rfl, fun _ _ => Nat.zero_le _⟩
  | some level => exact ⟨rfl, List.Perm.refl _, rfl, fun _ _ => Nat.zero_le _⟩

/-- Every item is of a day emitted. -/
theorem day_of_mem_born {days : Nat} {item : Item} (h : item ∈ born days) :
    ∃ day, 0 < day ∧ day ≤ days ∧ item.createdSecs = day * SECONDS_PER_DAY := by
  obtain ⟨d, -, hlt, hitem⟩ := mem_bornSince.mp h
  obtain ⟨place, -, hcreated, -⟩ := mem_bornOn.mp hitem
  exact ⟨d + 1, Nat.succ_pos d, by omega, hcreated⟩

/-- No two items are of one class and one day. -/
theorem born_inj {days : Nat} {item other : Item} (h : item ∈ born days) (h' : other ∈ born days)
    (hcontract : item.contract = other.contract) (hcreated : item.createdSecs = other.createdSecs) :
    item = other := by
  obtain ⟨day, hpos, hle, hday⟩ := day_of_mem_born h
  obtain ⟨d, rfl⟩ : ∃ d, day = d + 1 := ⟨day - 1, by omega⟩
  exact (existsUnique_born (by omega) other.contract).unique ⟨h, hcontract, hday⟩
    ⟨h', rfl, hcreated.symm.trans hday⟩

/-- Items of one class, each of a day among so many, are so many at most. -/
theorem countOf_le {items : List Item} {days first count : Nat} (hnodup : items.Nodup)
    (hitems : items ⊆ born days)
    (hday : ∀ item ∈ items, ∃ day ∈ List.range' first count, item.createdSecs =
      day * SECONDS_PER_DAY)
    (contract : Contract) : countOf items contract ≤ count := by
  -- two items of one contract and one day are one item
  have hcreated :
    ((items.filter fun item => item.contract = contract).map Item.createdSecs).Nodup := by
    apply (hnodup.filter _).map_on
    intro item hitem other hother heq
    obtain ⟨hitem, hof⟩ := List.mem_filter.mp hitem
    obtain ⟨hother, hof'⟩ := List.mem_filter.mp hother
    exact born_inj (hitems hitem) (hitems hother)
      ((of_decide_eq_true hof).trans (of_decide_eq_true hof').symm) heq
  -- and each is of one of the days counted
  have hsub : (items.filter fun item => item.contract = contract).map Item.createdSecs ⊆
      (List.range' first count).map (· * SECONDS_PER_DAY) := by
    intro created hmem
    obtain ⟨item, hitem, rfl⟩ := List.mem_map.mp hmem
    obtain ⟨day, hin, heq⟩ := hday item (List.mem_filter.mp hitem).1
    exact List.mem_map.mpr ⟨day, hin, heq.symm⟩
  calc countOf items contract
      = ((items.filter fun item => item.contract = contract).map Item.createdSecs).length :=
        (List.length_map _).symm
    _ ≤ ((List.range' first count).map (· * SECONDS_PER_DAY)).length :=
      (hcreated.subperm hsub).length_le
    _ = count := by rw [List.length_map, List.length_range']

/-- A young item of a day behind the clock is of one of the last days before it. -/
theorem day_of_not_aged {nowSecs day : Nat} {item : Item} (hyoung : ¬Aged nowSecs item)
    (hday : item.createdSecs = day * SECONDS_PER_DAY) (hbehind : day ≤ nowSecs / SECONDS_PER_DAY) :
    day ∈ List.range' (nowSecs / SECONDS_PER_DAY - (KEEP_DAYS - 1)) KEEP_DAYS := by
  unfold Aged ageOf at hyoung
  rw [hday] at hyoung
  rw [List.mem_range'_1]
  unfold KEEP_DAYS SECONDS_PER_DAY at *
  omega

/-- **One tick keeps the bookkeeping exact**, and archives only what is past its window. -/
theorem Conserved.tick {r : Retention} (h : Conserved r) (S : Type) [Snapshot S] (nowSecs : Nat)
    (now : Int) : Conserved (r.tick nowSecs now : S × Retention).2 := by
  obtain ⟨kept, archived, standings, heq, hperm, haged, hall⟩ := tick_eq S r nowSecs now h.nextId
  rw [heq]
  -- What was live or is newly born is kept or archived now, beside what was archived before.
  have hborn : (kept ++ (r.archived ++ archived)).Perm (born (r.emittedDays + r.reached nowSecs)) :=
    calc List.Perm (kept ++ (r.archived ++ archived)) (kept ++ (archived ++ r.archived)) :=
          List.perm_append_comm.append_left kept
      _ = (kept ++ archived) ++ r.archived := (List.append_assoc ..).symm
      List.Perm _ ((r.live ++ bornSince r.emittedDays (r.reached nowSecs)) ++ r.archived) :=
          hperm.append_right _
      List.Perm _ (r.archived ++ (r.live ++ bornSince r.emittedDays (r.reached nowSecs))) :=
          List.perm_append_comm
      _ = (r.archived ++ r.live) ++ bornSince r.emittedDays (r.reached nowSecs) :=
          (List.append_assoc ..).symm
      List.Perm _ (born r.emittedDays ++ bornSince r.emittedDays (r.reached nowSecs)) :=
          (List.perm_append_comm.trans h.perm).append_right _
      _ = born (r.emittedDays + r.reached nowSecs) := (born_add ..).symm
  refine ⟨rfl, hborn, ?_, fun hnone contract => ?_⟩
  · dsimp only
    rw [h.held, List.map_append]
  · dsimp only at hnone ⊢
    have hkept := hall hnone
    by_cases hreached : r.emittedDays + r.reached nowSecs ≤ nowSecs / SECONDS_PER_DAY
    · -- Every day emitted lies behind the clock: the young are of the last days before it.
      have hmem (item : Item) (hitem : item ∈ kept) :
        item ∈ born (r.emittedDays + r.reached nowSecs) :=
        hborn.subset (List.mem_append_left _ hitem)
      have hnodup : (kept ++ (r.archived ++ archived)).Nodup :=
        hborn.nodup_iff.mpr ((nodup_id_bornSince 0 _).of_map Item.id)
      have hday : ∀ item ∈ kept,
          ∃ day ∈ List.range' (nowSecs / SECONDS_PER_DAY - (KEEP_DAYS - 1)) KEEP_DAYS,
            item.createdSecs = day * SECONDS_PER_DAY := by
        intro item hitem
        obtain ⟨day, -, hle, hday⟩ := day_of_mem_born (hmem item hitem)
        rw [hkept] at hitem
        have hyoung := of_decide_eq_true (List.mem_filter.mp hitem).2
        exact ⟨day, day_of_not_aged hyoung hday (by omega), hday⟩
      exact countOf_le (List.nodup_append'.mp hnodup).1 hmem hday contract
    · -- The clock stands before what was emitted: nothing is born, and the live items only go.
      have hnothing : r.reached nowSecs = 0 := by
        unfold reached at hreached ⊢
        omega
      rw [hnothing] at hkept
      have hsub : kept.Sublist r.live := by
        rw [hkept]
        unfold bornSince
        rw [List.range'_zero, List.flatMap_nil, List.append_nil]
        exact List.filter_sublist
      calc countOf kept contract ≤ countOf r.live contract := (hsub.filter _).length_le
        _ ≤ KEEP_DAYS := h.bounded hnone contract

/-- The test after ticks at these simulated seconds, the first first. -/
def after (S : Type) [Snapshot S] (r : Retention) (ticks : List (Nat × Int)) : Retention :=
  ticks.foldl (fun r one => (r.tick one.1 one.2 : S × Retention).2) r

/-- What one tick puts among the live items before it sweeps them. -/
def created (r : Retention) (nowSecs : Nat) : List Item :=
  (r.createThrough nowSecs).live.drop r.live.length

/-- Every item the ticks created, the first first. -/
def everCreated (S : Type) [Snapshot S] : Retention → List (Nat × Int) → List Item
  | _, [] => []
  | r, (nowSecs, now) :: rest =>
    r.created nowSecs ++ everCreated S (r.tick nowSecs now : S × Retention).2 rest

private theorem created_eq {r : Retention} (h : Conserved r) (nowSecs : Nat) :
    r.created nowSecs = bornSince r.emittedDays (r.reached nowSecs) := by
  unfold created
  rw [createThrough_eq r nowSecs h.nextId]
  exact List.drop_left

private theorem emittedDays_tick {r : Retention} (h : Conserved r) (S : Type) [Snapshot S]
    (nowSecs : Nat) (now : Int) :
    (r.tick nowSecs now : S × Retention).2.emittedDays = r.emittedDays + r.reached nowSecs := by
  obtain ⟨kept, archived, standings, heq, -⟩ := tick_eq S r nowSecs now h.nextId
  rw [heq]

theorem conserved_after (S : Type) [Snapshot S] {r : Retention} (h : Conserved r)
    (ticks : List (Nat × Int)) : Conserved (after S r ticks) := by
  unfold after
  induction ticks generalizing r with
  | nil => exact h
  | cons one rest ih => exact ih (h.tick S one.1 one.2)

/-- What a run created is what was born while it ran. -/
theorem born_after (S : Type) [Snapshot S] {r : Retention} (h : Conserved r)
    (ticks : List (Nat × Int)) :
    born (after S r ticks).emittedDays = born r.emittedDays ++ everCreated S r ticks := by
  unfold after
  induction ticks generalizing r with
  | nil => exact (List.append_nil _).symm
  | cons one rest ih =>
    obtain ⟨nowSecs, now⟩ := one
    have hcons : everCreated S r ((nowSecs, now) :: rest) =
        r.created nowSecs ++ everCreated S (r.tick nowSecs now : S × Retention).2 rest := rfl
    rw [List.foldl_cons, ih (h.tick S nowSecs now), emittedDays_tick h, born_add, hcons,
      created_eq h, List.append_assoc]

private theorem stress_after (S : Type) [Snapshot S] {r : Retention} (h : Conserved r)
    (ticks : List (Nat × Int)) : (after S r ticks).stress = r.stress := by
  unfold after
  induction ticks generalizing r with
  | nil => rfl
  | cons one rest ih =>
    obtain ⟨kept, archived, standings, heq, -⟩ := tick_eq S r one.1 one.2 h.nextId
    rw [List.foldl_cons, ih (h.tick S one.1 one.2), heq]

/-- **Retention conserves its items**: after any ticks at any simulated times and any level, and one
tick more, what was ever created is live or archived, each item once and in one place only, one of a
class and a day, under an id of its own. The tick emitted no more than its bound of days, the
archive kept what it held and took only items past the window; and where no level is set, the live
items of a class are no more than the days of the window. -/
theorem conserves_items (S : Type) [Snapshot S] (node : Text) (stress : Option Stress)
    (ticks : List (Nat × Int)) (nowSecs : Nat) (now : Int) :
    let before := after S (start node stress) ticks
    let r : Retention := (before.tick nowSecs now : S × Retention).2
    let ever := everCreated S (start node stress) (ticks ++ [(nowSecs, now)])
    (r.live ++ r.archived).Perm ever ∧ (ever.map Item.id).Nodup ∧
    (∀ item ∈ ever, Xor (item ∈ r.live) (item ∈ r.archived)) ∧
    (∀ item ∈ ever, ∃ day, 0 < day ∧ day ≤ r.emittedDays ∧
      item.createdSecs = day * SECONDS_PER_DAY) ∧
    (∀ day, 0 < day → day ≤ r.emittedDays → ∀ contract, ∃! item, item ∈ ever ∧
      item.contract = contract ∧ item.createdSecs = day * SECONDS_PER_DAY) ∧
    before.emittedDays ≤ r.emittedDays ∧ r.emittedDays ≤ before.emittedDays + MAX_DAYS_PER_TICK ∧
    (∃ more, r.archived = before.archived ++ more ∧
      r.store.held = before.store.held ++ more.map (archiveItem · false) ∧
      ∀ item ∈ more, KEEP_DAYS * SECONDS_PER_DAY ≤ nowSecs - item.createdSecs) ∧
    (stress = none → ∀ contract, countOf r.live contract ≤ KEEP_DAYS) := by
  intro before r ever
  -- what holds before the tick holds after it
  have hbefore : Conserved before := conserved_after S (conserved_start node stress) ticks
  have hr : Conserved r := hbefore.tick S nowSecs now
  -- all there ever was is what the days so far brought
  have hever : ever = born r.emittedDays := by
    have hnone : (start node stress).emittedDays = 0 := by cases stress <;> rfl
    have hborn := born_after S (conserved_start node stress) (ticks ++ [(nowSecs, now)])
    unfold after at hborn
    rw [List.foldl_concat, hnone] at hborn
    exact hborn.symm
  have hperm : (r.live ++ r.archived).Perm ever := hever ▸ hr.perm
  have hnodup : (ever.map Item.id).Nodup := hever ▸ nodup_id_bornSince 0 r.emittedDays
  obtain ⟨kept, archived, standings, heq, -, haged, -⟩ :=
    tick_eq S before nowSecs now hbefore.nextId
  refine ⟨hperm, hnodup, fun item hitem => ?_, fun item hitem => ?_,
    fun day hpos hle contract => ?_, ?_, ?_, ⟨archived, ?_, ?_, fun item hitem => ?_⟩,
    fun hnone => hr.bounded ?_⟩
  · -- An item in both places would be twice among what was born.
    have hplaces := List.nodup_append'.mp (hperm.nodup_iff.mpr (hnodup.of_map Item.id))
    rcases List.mem_append.mp (hperm.mem_iff.mpr hitem) with hlive | harchived
    · exact Or.inl ⟨hlive, hplaces.2.2 hlive⟩
    · exact Or.inr ⟨harchived, fun hlive => hplaces.2.2 hlive harchived⟩
  · exact day_of_mem_born (hever ▸ hitem)
  · obtain ⟨d, rfl⟩ : ∃ d, day = d + 1 := ⟨day - 1, by omega⟩
    rw [hever]
    exact existsUnique_born (by omega) contract
  · -- a tick never takes a day back, and creates no more than its limit
    exact (emittedDays_tick hbefore S nowSecs now).symm ▸ Nat.le_add_right _ _
  · have hemitted := emittedDays_tick hbefore S nowSecs now
    unfold reached at hemitted
    change r.emittedDays = _ at hemitted
    omega
  · exact congrArg Retention.archived heq
  · exact congrArg (fun r => r.store.held) heq
  · -- what was archived had reached its age
    have hwindow := haged item hitem
    unfold Aged ageOf at hwindow
    have hpos : 0 < SECONDS_PER_DAY := by decide
    exact (Nat.le_div_iff_mul_le hpos).mp hwindow
  · -- the level is the one the run began with
    have hlevel := stress_after S (conserved_start node stress) (ticks ++ [(nowSecs, now)])
    unfold after at hlevel
    rw [List.foldl_concat] at hlevel
    exact hlevel.trans (by rw [hnone]; rfl)

end Retention

end XmipEssentials
