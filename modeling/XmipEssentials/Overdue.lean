import XmipEssentials.Records
import XmipEssentials.Retention

/-!
# Items past their window

A tick publishes, for each class, whether a sweep of it was missed (`retain`) and whether the
archive refused one of its items (`archive`). Both leave items live past their window, and the first
leaf speaks of missed sweeps only: an item the archive refused is among those it says are retained
within the window.

* `Retention.truthful_iff` — the retain leaf says what is live just where no refusal leaves an item
  past its window.
-/

namespace XmipEssentials

open Keyed Text

namespace Retention

variable {r : Retention} {nowSecs : Nat} {contract : Contract}

/-- Some item of the class that is live is past its window. -/
def Overdue (items : List Item) (nowSecs : Nat) (contract : Contract) : Prop :=
  ∃ item ∈ items, item.contract = contract ∧ Aged nowSecs item

/-! ### What a sweep leaves -/

/-- The sweep of the class is missed this round. -/
def skips (r : Retention) (contract : Contract) : Bool := r.miss "archive-skip".toList contract

/-- The archive refuses the items of the class this round. -/
def refuses (r : Retention) (contract : Contract) : Bool := r.miss "archive-fault".toList contract

/-- An item stays live: it is young, or its sweep is missed, or the archive refuses it. -/
def Stays (r : Retention) (nowSecs : Nat) (item : Item) : Prop :=
  Aged nowSecs item → r.skips item.contract = true ∨ r.refuses item.contract = true

/-- A sweep of these items goes from `s` to `s'`: the ones that stay are kept, and a class leaks at
retain where an aged one of it was missed. -/
structure Leaves (nowSecs : Nat) (items : List Item) (s s' : Sweeping) : Prop where
  round : s'.test.round = s.test.round
  stress : s'.test.stress = s.test.stress
  kept : ∀ item, item ∈ s'.kept ↔ item ∈ s.kept ∨ item ∈ items ∧ s.test.Stays nowSecs item
  retain : ∀ name, name ∈ s'.leaks.retain ↔ name ∈ s.leaks.retain ∨
    ∃ item ∈ items, Aged nowSecs item ∧ s.test.skips item.contract = true ∧
    item.contract.name = name

/-- A miss rests on the level and the round. -/
theorem miss_congr {r' : Retention} (hround : r'.round = r.round) (hstress : r'.stress = r.stress)
    (kind : Text) (contract : Contract) : r'.miss kind contract = r.miss kind contract := by
  unfold miss
  rw [hround, hstress]

/-- What is missed of one item. -/
theorem mem_retain_item {s s' : Sweeping} {item : Item} (hsame : s'.leaks.retain = s.leaks.retain)
    (hnone : ¬(Aged nowSecs item ∧ s.test.skips item.contract = true)) (name : Text) :
    name ∈ s'.leaks.retain ↔ name ∈ s.leaks.retain ∨
      ∃ one ∈ [item], Aged nowSecs one ∧ s.test.skips one.contract = true ∧
      one.contract.name = name := by
  rw [hsame]
  refine (or_iff_left ?_).symm
  rintro ⟨one, hone, haged, hskips, -⟩
  rw [List.mem_singleton.mp hone] at haged hskips
  exact hnone ⟨haged, hskips⟩

/-- An item kept. -/
theorem mem_kept_item {s s' : Sweeping} {item : Item} (hkept : s'.kept = s.kept ++ [item])
    (hstays : s.test.Stays nowSecs item) (one : Item) :
    one ∈ s'.kept ↔ one ∈ s.kept ∨ one ∈ [item] ∧ s.test.Stays nowSecs one := by
  rw [hkept, List.mem_append]
  refine or_congr_right (and_iff_left_of_imp fun hone => ?_).symm
  rw [List.mem_singleton.mp hone]
  exact hstays

private theorem leaves_item (nowSecs : Nat) (s : Sweeping) (item : Item) :
    Leaves nowSecs [item] s (sweepItem nowSecs s item) := by
  unfold sweepItem
  rw [actionFor_eq]
  -- an item of its age is skipped, refused or archived; a younger one stays
  by_cases haged : Aged nowSecs item
  · rw [if_pos haged]
    dsimp only
    unfold tryArchive
    dsimp only
    -- skipped: it stays, and the leaf of retaining says so
    cases hskip : s.test.miss "archive-skip".toList item.contract with
    | true =>
      rw [if_pos rfl]
      refine ⟨rfl, rfl, mem_kept_item rfl fun _ => .inl hskip, fun name => ?_⟩
      dsimp only
      rw [List.mem_cons, or_comm, eq_comm]
      refine or_congr_right ⟨fun hname => ⟨item, List.mem_singleton_self item, haged, hskip, hname⟩,
        ?_⟩
      rintro ⟨one, hone, -, -, hname⟩
      rwa [List.mem_singleton.mp hone] at hname
    | false =>
      rw [if_neg Bool.false_ne_true]
      have hswept : ¬(Aged nowSecs item ∧ s.test.skips item.contract = true) := by
        rintro ⟨-, hskips⟩
        exact Bool.false_ne_true (hskip.symm.trans hskips)
      -- refused: it stays too, and only the leaf of archiving says so
      cases hrefuses : s.test.miss "archive-fault".toList item.contract with
      | true =>
        obtain ⟨why, harchive⟩ := archive_poisoned s.test.store item
        rw [harchive]
        exact ⟨rfl, rfl, mem_kept_item rfl fun _ => .inr hrefuses, mem_retain_item rfl hswept⟩
      -- archived: it is the one item of its age that leaves
      | false =>
        obtain ⟨location, harchive⟩ := archive_eq s.test.store item
        rw [harchive]
        refine ⟨rfl, rfl, fun one => ?_, mem_retain_item rfl hswept⟩
        refine (or_iff_left ?_).symm
        rintro ⟨hone, hstays⟩
        rw [List.mem_singleton.mp hone] at hstays
        rcases hstays haged with hskips | hfault
        · exact Bool.false_ne_true (hskip.symm.trans hskips)
        · exact Bool.false_ne_true (hrefuses.symm.trans hfault)
  · rw [if_neg haged]
    exact ⟨rfl, rfl, mem_kept_item rfl fun h => absurd h haged,
      mem_retain_item rfl fun h => haged h.1⟩

private theorem Leaves.trans {items more : List Item} {s s' s'' : Sweeping}
    (h : Leaves nowSecs items s s') (h' : Leaves nowSecs more s' s'') :
    Leaves nowSecs (items ++ more) s s'' where
  round := h'.round.trans h.round
  stress := h'.stress.trans h.stress
  kept item := by
    have hstays : s'.test.Stays nowSecs item ↔ s.test.Stays nowSecs item := by
      unfold Stays skips refuses
      rw [miss_congr h.round h.stress, miss_congr h.round h.stress]
    rw [h'.kept, h.kept, hstays, List.mem_append, or_and_right, or_assoc]
  retain name := by
    have hskips (contract : Contract) : s'.test.skips contract = s.test.skips contract :=
      miss_congr h.round h.stress _ contract
    rw [h'.retain, h.retain, or_assoc]
    simp only [hskips, List.mem_append, or_and_right, exists_or]

/-- **A sweep**, any items. -/
theorem leaves_foldl (nowSecs : Nat) (items : List Item) (s : Sweeping) :
    Leaves nowSecs items s (items.foldl (sweepItem nowSecs) s) := by
  induction items generalizing s with
  | nil =>
    refine ⟨rfl, rfl, fun item => ?_, fun name => ?_⟩
    · exact (or_iff_left fun h => List.not_mem_nil h.1).symm
    · refine (or_iff_left ?_).symm
      rintro ⟨one, hone, -⟩
      exact List.not_mem_nil hone
  | cons item items ih => exact (leaves_item nowSecs s item).trans (ih _)

/-- **What is live and past its window after a sweep**: what was, where the sweep was missed or the
archive refuses. -/
theorem overdue_sweepLive (r : Retention) (nowSecs : Nat) (contract : Contract) :
    Overdue (r.sweepLive nowSecs).1.live nowSecs contract ↔
      Overdue r.live nowSecs contract ∧ (r.skips contract = true ∨ r.refuses contract = true) := by
  have hkept (item : Item) : item ∈ (r.sweepLive nowSecs).1.live ↔
    item ∈ r.live ∧ r.Stays nowSecs item := by
    refine ((leaves_foldl nowSecs r.live ⟨{ r with live := [] }, ⟨[], []⟩, []⟩).kept item).trans ?_
    exact or_iff_right List.not_mem_nil
  constructor
  · rintro ⟨item, hitem, rfl, haged⟩
    obtain ⟨hlive, hstays⟩ := (hkept item).mp hitem
    exact ⟨⟨item, hlive, rfl, haged⟩, hstays haged⟩
  · rintro ⟨⟨item, hlive, rfl, haged⟩, hmissed⟩
    exact ⟨item, (hkept item).mpr ⟨hlive, fun _ => hmissed⟩, rfl, haged⟩

/-- **A class leaks at retain** where its sweep was missed with an item past its window. -/
theorem mem_retain_sweepLive (r : Retention) (nowSecs : Nat) (contract : Contract) :
    contract.name ∈ (r.sweepLive nowSecs).2.retain ↔
      Overdue r.live nowSecs contract ∧ r.skips contract = true := by
  refine ((leaves_foldl nowSecs r.live ⟨{ r with live := [] }, ⟨[], []⟩, []⟩).retain
    contract.name).trans ?_
  rw [or_iff_right List.not_mem_nil]
  constructor
  · rintro ⟨item, hitem, haged, hskips, hname⟩
    obtain rfl := Contract.name_injective hname
    exact ⟨⟨item, hitem, rfl, haged⟩, hskips⟩
  · rintro ⟨⟨item, hitem, rfl, haged⟩, hskips⟩
    exact ⟨item, hitem, haged, hskips, rfl⟩

/-! ### What a tick publishes of a class -/

/-- The scope a stage and class is published under. -/
def scopeOf (node : Text) (leaf : Sweep × Contract) : Text :=
  node ++ '/' :: leaf.1.name ++ '/' :: leaf.2.name

/-- The stages and classes a tick publishes, in order. -/
def leaves : List (Sweep × Contract) :=
  Sweep.all.flatMap fun sweep => contracts.map fun contract => (sweep, contract)

private theorem scopeOf_injective (node : Text) : Function.Injective (scopeOf node) := by
  rintro ⟨sweep, contract⟩ ⟨sweep', contract'⟩ heq
  unfold scopeOf at heq
  rw [List.append_assoc, List.append_assoc] at heq
  -- the word and the contract's name follow the same beginning
  have hrest := (List.cons.inj (List.append_cancel_left heq)).2
  cases sweep with
  | retain =>
    cases sweep' with
    | retain =>
      have hname : contract.name = contract'.name :=
        (List.cons.inj (List.append_cancel_left hrest)).2
      rw [Contract.name_injective hname]
    -- the two words differ in their first letter
    | archive => exact absurd (List.cons.inj hrest).1 (by decide)
  | archive =>
    cases sweep' with
    | retain => exact absurd (List.cons.inj hrest).1 (by decide)
    | archive =>
      have hname : contract.name = contract'.name :=
        (List.cons.inj (List.append_cancel_left hrest)).2
      rw [Contract.name_injective hname]

private theorem mem_leaves (sweep : Sweep) (contract : Contract) : (sweep, contract) ∈ leaves := by
  refine List.mem_flatMap.mpr ⟨sweep, ?_, List.mem_map_of_mem (Contract.mem_contracts contract)⟩
  cases sweep <;> decide

private theorem nodup_leaves : leaves.Nodup := by
  have hpair (sweep : Sweep) : (contracts.map fun contract => (sweep, contract)).Nodup :=
    Contract.nodup_contracts.map fun _ _ heq => (Prod.mk.inj heq).2
  refine List.nodup_flatMap.mpr ⟨fun sweep _ => hpair sweep, ?_⟩
  apply List.pairwise_pair.mpr
  intro leaf hretain harchive
  obtain ⟨contract, -, rfl⟩ := List.mem_map.mp hretain
  obtain ⟨contract', -, heq⟩ := List.mem_map.mp harchive
  exact absurd (Prod.mk.inj heq).1 (by decide)

section Publish

variable {S : Type} [Snapshot S] {leaks : Leaks} {now : Int}

private theorem verdict_scope (sweep : Sweep) :
    (r.verdict sweep contract leaks now).1.scope = scopeOf r.node (sweep, contract) := rfl

/-- Verdicts of leaves published at other scopes leave what a snapshot holds of this one. -/
theorem publish_of_ne (keeps : Snapshot.Keeps S) {rest : List (Sweep × Contract)} {scope : Text}
    (h : ∀ leaf ∈ rest, scopeOf r.node leaf ≠ scope) (snapshot : S) (x : HealthRecord) :
    x ∈ Snapshot.healthRecords (publish leaks now rest r snapshot).1 ∧ x.scope = scope ↔
      x ∈ Snapshot.healthRecords snapshot ∧ x.scope = scope := by
  induction rest generalizing r snapshot with
  | nil => rfl
  | cons leaf rest ih =>
    obtain ⟨sweep, contract⟩ := leaf
    rw [List.forall_mem_cons] at h
    unfold publish
    dsimp only
    rw [ih (r := (r.verdict sweep contract leaks now).2) h.2, keeps.health.mem_record]
    constructor
    · rintro ⟨rfl | ⟨hx, -⟩, heq⟩
      · exact absurd ((verdict_scope sweep).symm.trans heq) h.1
      · exact ⟨hx, heq⟩
    · rintro ⟨hx, heq⟩
      refine ⟨.inr ⟨hx, fun hsame => h.1 ?_⟩, heq⟩
      exact (verdict_scope sweep).symm.trans (hsame.symm.trans heq)

/-- **A leaf is published once**: the verdict of it, from the items and leaks of the tick. -/
theorem publishes_verdict (leaks : Leaks) (now : Int) (keeps : Snapshot.Keeps S)
    {l : List (Sweep × Contract)} (hnodup : l.Nodup) {sweep : Sweep} (hmem : (sweep, contract) ∈ l)
    (r : Retention) (snapshot : S) :
    ∃ standings, Snapshot.Publishes (publish leaks now l r snapshot).1
      (scopeOf r.node (sweep, contract))
      ({ r with standings }.verdict sweep contract leaks now).1 := by
  induction l generalizing r snapshot with
  | nil => exact absurd hmem List.not_mem_nil
  | cons leaf l ih =>
    obtain ⟨hnot, hrest⟩ := List.nodup_cons.mp hnodup
    rcases List.mem_cons.mp hmem with rfl | hlater
    · refine ⟨r.standings, fun x => ?_⟩
      unfold publish
      dsimp only
      -- No later leaf is at this scope.
      have hne : ∀ leaf ∈ l, scopeOf r.node leaf ≠ scopeOf r.node (sweep, contract) := by
        intro leaf hleaf heq
        rw [scopeOf_injective r.node heq] at hleaf
        exact hnot hleaf
      rw [publish_of_ne (r := (r.verdict sweep contract leaks now).2) keeps hne,
        keeps.health.mem_record]
      constructor
      · rintro ⟨rfl | ⟨-, hother⟩, heq⟩
        · rfl
        · exact absurd (heq.trans (verdict_scope sweep).symm) hother
      · rintro rfl
        exact ⟨.inl rfl, verdict_scope sweep⟩
    · unfold publish
      exact ih hrest hlater _ _

end Publish

/-! ### Whether the retain leaf is true -/

/-- What the retain leaf says of so many items. -/
def withinLine (n : Nat) : Text := decimal n ++ " retained within the window".toList

/-- The class has a retain leaf after the tick, which is done just where some live item of the class
is past its window, and counts no such item as within it. -/
def Truthful (S : Type) [Snapshot S] (r : Retention) (nowSecs : Nat) (now : Int)
    (contract : Contract) : Prop :=
  ∃ record, Snapshot.Publishes (r.tick nowSecs now : S × Retention).1
    (scopeOf r.node (.retain, contract)) record ∧
    (record.health = .done ↔ Overdue (r.tick nowSecs now : S × Retention).2.live nowSecs contract) ∧
    ∀ n, record.evidence = withinLine n →
      n = countOf ((r.tick nowSecs now : S × Retention).2.live.filter fun item =>
        ¬Aged nowSecs item) contract

/-- The test as the sweep of a tick finds it: its round counted and the items of the days reached
created. -/
def opened (r : Retention) (nowSecs : Nat) : Retention :=
  createThrough { r with round := r.round + 1 } nowSecs

/-- The archive refuses an item of the class that is past its window. -/
def Refuses (r : Retention) (nowSecs : Nat) (contract : Contract) : Prop :=
  (r.opened nowSecs).skips contract = false ∧ (r.opened nowSecs).refuses contract = true ∧
    Overdue (r.opened nowSecs).live nowSecs contract

private theorem withinLine_injective {m n : Nat} (h : withinLine m = withinLine n) : m = n :=
  decimal_injective (List.append_cancel_right h)

/-- The line of a leak counts nothing: it does not begin with a digit. -/
theorem ne_withinLine (n : Nat) :
    "retention leak: an item past its window is still live".toList ≠ withinLine n := by
  intro heq
  obtain ⟨c, rest, hdigits⟩ := List.exists_cons_of_ne_nil (decimal_ne_nil n)
  have hdigit : c.isDigit := decimal_isDigit (hdigits ▸ List.mem_cons_self)
  unfold withinLine at heq
  rw [hdigits, List.cons_append] at heq
  rw [← (List.cons.inj heq).1] at hdigit
  exact absurd hdigit (by decide)

/-- A verdict is done just where its class leaked. -/
theorem verdict_retain (r : Retention) (contract : Contract) (leaks : Leaks) (now : Int) :
    ((r.verdict .retain contract leaks now).1.health = .done ↔ contract.name ∈ leaks.retain) ∧
      (r.verdict .retain contract leaks now).1.evidence = r.retainLine contract leaks := by
  refine ⟨?_, rfl⟩
  unfold verdict Standing.health Standing.record
  by_cases hleak : contract.name ∈ leaks.retain
  · simp [hleak]
  · refine iff_of_false ?_ hleak
    simp only [hleak]
    split_ifs <;> simp_all

/-- A snapshot publishes one record of a scope. -/
theorem publishes_unique {S : Type} [Snapshot S] {snapshot : S} {scope : Text} {x y : HealthRecord}
    (hx : Snapshot.Publishes snapshot scope x) (hy : Snapshot.Publishes snapshot scope y) : x = y :=
  (hy x).mp ((hx x).mpr rfl)

variable {S : Type} [Snapshot S]

/-- Creating and sweeping leave the node. -/
theorem node_sweepLive (hid : r.nextId = r.emittedDays * contracts.length) (nowSecs : Nat) :
    ((r.opened nowSecs).sweepLive nowSecs).1.node = r.node := by
  have hopened : (r.opened nowSecs).node = r.node := by
    have hnode :=
      congrArg Retention.node (createThrough_eq { r with round := r.round + 1 } nowSecs hid)
    exact hnode
  obtain ⟨kept, archived, leaks, hsweep, -⟩ := sweepLive_eq (r.opened nowSecs) nowSecs
  rw [hsweep]
  exact hopened

/-- Publishing leaves the items a sweep left. -/
theorem live_tick (r : Retention) (nowSecs : Nat) (now : Int) :
    (r.tick nowSecs now : S × Retention).2.live =
      ((r.opened nowSecs).sweepLive nowSecs).1.live := by
  obtain ⟨standings, heq⟩ := publish_eq ((r.opened nowSecs).sweepLive nowSecs).2 now leaves
    ((r.opened nowSecs).sweepLive nowSecs).1 (Snapshot.new : S)
  have hlive := congrArg Retention.live heq
  exact hlive

/-- **What the retain leaf of a class says after a tick**: a leak where its sweep was missed with an
item past its window, and else how many of its items are live. -/
theorem publishes_retain (keeps : Snapshot.Keeps S)
    (hid : r.nextId = r.emittedDays * contracts.length) (nowSecs : Nat) (now : Int)
    (contract : Contract) :
    ∃ record, Snapshot.Publishes (r.tick nowSecs now : S × Retention).1
      (scopeOf r.node (.retain, contract)) record ∧
      (record.health = .done ↔
        Overdue (r.opened nowSecs).live nowSecs contract ∧
        (r.opened nowSecs).skips contract = true) ∧
      record.evidence = if record.health = .done then
        "retention leak: an item past its window is still live".toList
        else withinLine (countOf (r.tick nowSecs now : S × Retention).2.live contract) := by
  -- no other leaf is published under this scope
  obtain ⟨standings, hpublishes⟩ :=
    publishes_verdict ((r.opened nowSecs).sweepLive nowSecs).2 now keeps nodup_leaves
    (mem_leaves .retain contract) ((r.opened nowSecs).sweepLive nowSecs).1 (Snapshot.new : S)
  rw [← node_sweepLive hid nowSecs]
  obtain ⟨hdone, hline⟩ :=
    verdict_retain { ((r.opened nowSecs).sweepLive nowSecs).1 with standings } contract
    ((r.opened nowSecs).sweepLive nowSecs).2 now
  refine ⟨_, hpublishes, hdone.trans (mem_retain_sweepLive ..), ?_⟩
  rw [hline, live_tick]
  unfold retainLine
  -- the leaf is red exactly where the sweep noted the leak
  by_cases hleak : contract.name ∈ ((r.opened nowSecs).sweepLive nowSecs).2.retain
  · rw [if_pos hleak, if_pos (hdone.mpr hleak)]
  · rw [if_neg hleak, if_neg (mt hdone.mp hleak)]
    rfl

/-- Where no item of the class is past its window, all of it is within. -/
theorem countOf_young {items : List Item} (h : ¬Overdue items nowSecs contract) :
    countOf (items.filter fun item => ¬Aged nowSecs item) contract = countOf items contract := by
  unfold countOf
  rw [List.filter_filter]
  congr 1
  apply List.filter_congr
  intro item hitem
  by_cases hcontract : item.contract = contract
  · have hyoung : ¬Aged nowSecs item := fun haged => h ⟨item, hitem, hcontract, haged⟩
    simp [hcontract, hyoung]
  · simp [hcontract]

/-- **The retain leaf of a class is true after a tick** just where the archive does not refuse an
item of it that is past its window: after any ticks, at any level and simulated time. -/
theorem truthful_iff (keeps : Snapshot.Keeps S) (node : Text) (stress : Option Stress)
    (ticks : List (Nat × Int)) (nowSecs : Nat) (now : Int) (contract : Contract) :
    Truthful S (after S (start node stress) ticks) nowSecs now contract ↔
      ¬Refuses (after S (start node stress) ticks) nowSecs contract := by
  have hid := (conserved_after S (conserved_start node stress) ticks).nextId
  generalize after S (start node stress) ticks = r at hid ⊢
  obtain ⟨record, hpublishes, hdone, hline⟩ := publishes_retain keeps hid nowSecs now contract
  have hlive := overdue_sweepLive (r.opened nowSecs) nowSecs contract
  rw [← live_tick (S := S) r nowSecs now] at hlive
  constructor
  · rintro ⟨other, hother, hiff, -⟩ ⟨hskips, hrefuses, hoverdue⟩
    obtain rfl := publishes_unique hother hpublishes
    -- Refused, an item stays live past its window, and no sweep of it was missed.
    have hmissed := (hdone.mp (hiff.mpr (hlive.mpr ⟨hoverdue, .inr hrefuses⟩))).2
    exact Bool.false_ne_true (hskips.symm.trans hmissed)
  · intro hrefuses
    have hiff : record.health = .done ↔
      Overdue (r.tick nowSecs now : S × Retention).2.live nowSecs contract := by
      rw [hdone, hlive]
      refine and_congr_right fun hoverdue => ⟨.inl, fun hmissed => ?_⟩
      by_contra hskips
      have hnot := Bool.eq_false_iff.mpr hskips
      exact hrefuses ⟨hnot, hmissed.resolve_left hskips, hoverdue⟩
    refine ⟨record, hpublishes, hiff, fun n hn => ?_⟩
    rw [hline] at hn
    by_cases hleak : record.health = .done
    · rw [if_pos hleak] at hn
      exact absurd hn (ne_withinLine n)
    · rw [if_neg hleak] at hn
      rw [countOf_young (mt hiff.mpr hleak)]
      exact (withinLine_injective hn).symm

/-- What a sweep misses rests on the level and the round of its tick. -/
theorem miss_opened (hid : r.nextId = r.emittedDays * contracts.length) (nowSecs : Nat)
    (kind : Text) (contract : Contract) :
    (r.opened nowSecs).miss kind contract = { r with round := r.round + 1 }.miss kind contract := by
  have heq := createThrough_eq { r with round := r.round + 1 } nowSecs hid
  have hround := congrArg Retention.round heq
  have hstress := congrArg Retention.stress heq
  exact miss_congr hround hstress kind contract

/-- A test at the hardest level that no tick has run. -/
def brutal : Retention := after Records (start ['n'] (some .brutal)) []

/-- The first day past the window of the first day's items. -/
def pastWindow : Nat := 91 * SECONDS_PER_DAY

/-- An item of every class is past its window then. -/
theorem overdue_pastWindow (contract : Contract) :
    Overdue (brutal.opened pastWindow).live pastWindow contract := by
  have heq := createThrough_eq { brutal with round := brutal.round + 1 } pastWindow rfl
  have hlive : (brutal.opened pastWindow).live = born 60 := by
    have hlive := congrArg Retention.live heq
    exact hlive
  have hday : 0 < 60 := by omega
  obtain ⟨item, ⟨hitem, hcontract, hcreated⟩, -⟩ := existsUnique_born hday contract
  refine ⟨item, hlive ▸ hitem, hcontract, ?_⟩
  unfold Aged ageOf pastWindow
  rw [hcreated]
  decide

/-- The retain leaf of a class whose items the archive takes is true. -/
theorem archived_truthful : Truthful Records brutal pastWindow 0 .json :=
  (truthful_iff Records.keeps ['n'] (some .brutal) [] pastWindow 0 .json).mpr fun hrefuses => by
    have htaken : (brutal.opened pastWindow).refuses .json = false := by
      unfold refuses
      rw [miss_opened rfl]
      decide
    exact Bool.false_ne_true (htaken.symm.trans hrefuses.2.1)

/-- **The items of a class the archive refuses read as retained within the window**, the one past it
with them. -/
theorem refused_within : ∃ record,
    Snapshot.Publishes (brutal.tick pastWindow 0 : Records × Retention).1
      (scopeOf ['n'] (.retain, .bytes)) record ∧
      record.health ≠ .done ∧
      Overdue (brutal.tick pastWindow 0 : Records × Retention).2.live pastWindow .bytes ∧
      record.evidence =
        withinLine (countOf (brutal.tick pastWindow 0 : Records × Retention).2.live .bytes) := by
  -- the level skips no archiving of this contract, and refuses it
  have hskips : (brutal.opened pastWindow).skips .bytes = false := by
    unfold skips
    rw [miss_opened rfl]
    decide
  have hrefuses : (brutal.opened pastWindow).refuses .bytes = true := by
    unfold refuses
    rw [miss_opened rfl]
    decide
  obtain ⟨record, hpublishes, hdone, hline⟩ :=
    publishes_retain (S := Records) (r := brutal) Records.keeps rfl pastWindow 0 .bytes
  -- so the leaf of retaining passes
  have hpasses : record.health ≠ .done := by
    intro hleak
    exact Bool.false_ne_true (hskips.symm.trans (hdone.mp hleak).2)
  refine ⟨record, hpublishes, hpasses, ?_, ?_⟩
  · -- while the item is past its window, and still live
    rw [live_tick, overdue_sweepLive]
    exact ⟨overdue_pastWindow .bytes, .inr hrefuses⟩
  · rw [hline, if_neg hpasses]

end Retention

end XmipEssentials
