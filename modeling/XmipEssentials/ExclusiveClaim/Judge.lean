import Mathlib.Data.List.Dedup
import Mathlib.Data.List.Sort
import XmipEssentials.ExclusiveClaim.Pickup
import XmipEssentials.Fault

/-!
# The exclusive claim, judged

Each round an exercise lays a lane of items for every style, races its readers for them, waits until
the lane is drained where others may drain it, and judges the done records: every item by one
holder, none missed, and each key in order where the style keeps it.
-/

namespace XmipEssentials.ExclusiveClaim

open Text Conc Files

/-- How work runs once claimed. -/
inductive Style where
  | sequential
  | parallel
  | concurrent
  deriving DecidableEq, Repr

namespace Style

def all : List Style := [sequential, parallel, concurrent]

def name : Style → Text
  | sequential => "sequential".toList
  | parallel => "parallel".toList
  | concurrent => "concurrent".toList

/-- Sequential is the one that keeps order per key. -/
def ordered : Style → Bool
  | sequential => true
  | parallel | concurrent => false

end Style

/-- What a round concluded for one style. -/
inductive Verdict where
  | held (line : Text)
  | contended (line : Text)
  | missed (line : Text)
  deriving DecidableEq, Repr

/-! ### The judge -/

/-- Item → the holders that processed it, each once and both in order. -/
def holders (processed : List Processed) : List (Text × List Text) :=
  ((processed.map Processed.item).dedup.insertionSort (· ≤ ·)).map fun item =>
    (item, (((processed.filter (·.item = item)).map Processed.holder).dedup.insertionSort (· ≤ ·)))

def duplicated (processed : List Processed) : Bool :=
  (holders processed).any fun entry => 1 < entry.2.length

/-- Whether no record of the list has a smaller place than the last of its key before it. -/
def neverBack (last : Nat → Option Nat) : List Processed → Bool
  | [] => true
  | record :: rest =>
    -- in the order they were processed in, a sequence went back
    if (last record.key).any (record.seq < ·) then false
    else neverBack (Function.update last record.key (some record.seq)) rest

/-- Whether each key's items were processed in non-decreasing sequence. -/
def orderedPerKey (processed : List Processed) : Bool :=
  neverBack (fun _ => none) (processed.insertionSort fun a b => a.order ≤ b.order)

/-- What a verdict says of a breach the essentials injected. -/
def injectedMark : Text := " (injected)".toList

/-- Judge a round: every item claimed by exactly one holder, none missed, and — for Sequential —
each key processed in order. -/
def judge (style : Style) (dropped : Nat) (processed : List Processed) : Verdict :=
  match (holders processed).find? fun entry => 1 < entry.2.length with
  | some (item, who) =>
    -- a breach the round injected is said to be one
    let note := if processed.any Processed.injected then injectedMark else []
    .contended (item ++ " was claimed by ".toList ++ decimal who.length ++
      " holders at once: ".toList ++ ", ".toList.intercalate who ++ note)
  | none =>
    let count := (holders processed).length
    if count < dropped then
      .missed (decimal (dropped - count) ++ " of ".toList ++ decimal dropped ++
        " items were never claimed".toList)
    else if style.ordered && !orderedPerKey processed then
      .contended "the sequence was reordered under contention".toList
    else
      let owners := ((processed.filterMap fun record =>
        splitOnce ['-'] record.holder).map Prod.fst).dedup
      let note := if style.ordered then ", in order per key".toList else []
      .held (decimal dropped ++ " items, one holder each".toList ++ note ++ ", ".toList ++
        decimal owners.length ++ " process(es)".toList)

/-! ### The exercise -/

/-- The claim exercise of one process: its id, whether others share its lanes, its round and the
rate it drops the claim at. -/
structure Exercise where
  tag : Nat
  shared : Bool
  round : Nat
  rate : UInt8

namespace Exercise

/-- The lane of the round. -/
def lane (e : Exercise) : Lane := decimal e.tag ++ '-' :: decimal e.round

/-- Whether the round drops the claim. -/
def broken (e : Exercise) (style : Style) : Bool :=
  firesKeyed e.rate ("breach/".toList ++ style.name) e.round

/-- The readers of the round: they sign with the process and their index, and share its clock. -/
def reader (e : Exercise) (index : Nat) : Reader where
  holder := decimal e.tag ++ '-' :: decimal index
  clock := e.lane
  shared := e.shared
  own := e.lane

/-- The race of `n` readers as it begins: the clock is new, and the process waits for them. -/
def race (e : Exercise) (style : Style) {n : Nat} (s : State (Option (Fin n))) :
    Config (Option (Fin n)) PickupOp Unit (State (Option (Fin n))) where
  shared := { s with clock := Function.update s.clock e.lane 0 }
  prog
    | none => pure ()
    | some index => (e.reader index).run style.ordered (e.broken style)

end Exercise

/-- The ledger of a lane once it is drained, once a breach is visible, or once the wait has run out.
It runs out in the last of the turns. -/
def settleIn (shared : Bool) (lane : Lane) : Nat → Prog PickupOp (List Processed)
  | 0 => do
    let processed ← ledger lane
    let _ ← list lane .find
    pure processed
  | turns + 1 => do
    let processed ← ledger lane
    let left ← list lane .find
    -- alone, drained, or broken for all to see
    if shared = false ∨ left = [] ∨ duplicated processed then pure processed
    else settleIn shared lane turns

/-- Wait for the lane to drain, as long as the clock has it. -/
def settle (shared : Bool) (lane : Lane) : Prog PickupOp (List Processed) := do
  settleIn shared lane (← Prog.perform .patience)

/-- Competing readers per round. -/
abbrev READERS : Nat := 4

/-- What a process's own thread does of a round, the race aside that it waits for: it lays the lane,
settles, judges, and tears the lane down. -/
def Exercise.exercise (e : Exercise) (style : Style) : Prog PickupOp Verdict := do
  match ← stageLane e.lane with
  | none => pure (.missed "could not create the pickup lane".toList)
  | some dropped =>
    let processed ← settle e.shared e.lane
    removeLane e.lane 3
    pure (judge style dropped processed)

/-! ### What the judge holds a round for -/

private theorem mem_holders {processed : List Processed} {item : Text} {who : List Text}
    (h : (item, who) ∈ holders processed) :
    who.Nodup ∧ ∀ holder, holder ∈ who ↔ ∃ r ∈ processed, r.item = item ∧ r.holder = holder := by
  obtain ⟨item', -, heq⟩ := List.mem_map.mp h
  rw [Prod.mk.injEq] at heq
  obtain ⟨rfl, rfl⟩ := heq
  refine ⟨(List.perm_insertionSort _ _).nodup_iff.mpr (List.nodup_dedup _), fun holder => ?_⟩
  rw [List.mem_insertionSort, List.mem_dedup, List.mem_map]
  constructor
  · rintro ⟨r, hr, hholder⟩
    rw [List.mem_filter, decide_eq_true_iff] at hr
    exact ⟨r, hr.1, hr.2, hholder⟩
  · rintro ⟨r, hr, hitem, hholder⟩
    refine ⟨r, ?_, hholder⟩
    rw [List.mem_filter, decide_eq_true_iff]
    exact ⟨hr, hitem⟩

private theorem exists_holders {processed : List Processed} {r : Processed} (hr : r ∈ processed) :
    ∃ who, (r.item, who) ∈ holders processed := by
  refine ⟨_, List.mem_map.mpr ⟨r.item, ?_, rfl⟩⟩
  rw [List.mem_insertionSort, List.mem_dedup]
  exact List.mem_map_of_mem hr

private theorem length_holders (processed : List Processed) :
    (holders processed).length = (processed.map Processed.item).dedup.length := by
  rw [holders, List.length_map, List.length_insertionSort]

/-- No item has two holders where records of one item have one holder. -/
theorem find_holders_eq_none {processed : List Processed}
    (hone : ∀ r ∈ processed, ∀ r' ∈ processed, r.item = r'.item → r.holder = r'.holder) :
    (holders processed).find? (fun entry => 1 < entry.2.length) = none := by
  rw [List.find?_eq_none]
  rintro ⟨item, who⟩ hentry
  obtain ⟨hnodup, hmem⟩ := mem_holders hentry
  rw [decide_eq_true_iff, not_lt]
  match who with
  | [] => exact Nat.zero_le _
  | [_] => exact le_refl _
  | a :: b :: rest =>
    -- The first two holders are two records' of the item.
    obtain ⟨r, hr, hitem, rfl⟩ := (hmem a).mp (by simp)
    obtain ⟨r', hr', hitem', rfl⟩ := (hmem b).mp (by simp)
    have hsame := hone r hr r' hr' (hitem.trans hitem'.symm)
    simp [hsame] at hnodup

/-- Some item has two holders where two records of one item do. -/
theorem exists_find_holders {processed : List Processed} {r r' : Processed} (hr : r ∈ processed)
    (hr' : r' ∈ processed) (hitem : r.item = r'.item) (hne : r.holder ≠ r'.holder) :
    ∃ entry, (holders processed).find? (fun entry => 1 < entry.2.length) = some entry := by
  obtain ⟨who, hwho⟩ := exists_holders hr
  have hsome : ((holders processed).find? fun entry => 1 < entry.2.length).isSome := by
    rw [List.find?_isSome]
    refine ⟨_, hwho, decide_eq_true_iff.mpr ?_⟩
    obtain ⟨-, hmem⟩ := mem_holders hwho
    have ha : r.holder ∈ who := (hmem _).mpr ⟨r, hr, rfl, rfl⟩
    have hb : r'.holder ∈ who := (hmem _).mpr ⟨r', hr', hitem.symm, rfl⟩
    match who with
    | [] => cases ha
    | [only] =>
      exact absurd ((List.mem_singleton.mp ha).trans (List.mem_singleton.mp hb).symm) hne
    | _ :: _ :: rest => exact Nat.one_lt_succ_succ _
  exact Option.isSome_iff_exists.mp hsome

private theorem neverBack_of_pairwise {l : List Processed} {last : Nat → Option Nat}
    (hlast : ∀ r ∈ l, ∀ seq, last r.key = some seq → seq ≤ r.seq)
    (hl : l.Pairwise fun a b => a.key = b.key → a.seq ≤ b.seq) : neverBack last l = true := by
  induction l generalizing last with
  | nil => rfl
  | cons r l ih =>
    rw [List.pairwise_cons] at hl
    -- no record comes before the last of its key
    have hnot : ¬(last r.key).any (r.seq < ·) = true := by
      rw [Option.any_eq_true]
      rintro ⟨seq, hseq, hless⟩
      have := hlast r List.mem_cons_self seq hseq
      rw [decide_eq_true_iff] at hless
      omega
    rw [neverBack, if_neg hnot]
    refine ih (fun r' hr' seq hseq => ?_) hl.2
    -- of the record's key it is now the last; of any other key the last is as it was
    by_cases hkey : r'.key = r.key
    · rw [hkey, Function.update_self] at hseq
      cases hseq
      exact hl.1 r' hr' hkey.symm
    · rw [Function.update_of_ne hkey] at hseq
      exact hlast r' (List.mem_cons_of_mem r hr') seq hseq

/-- Keys are in order where a key's later items have the larger orders. -/
theorem orderedPerKey_of_lt {processed : List Processed}
    (h : ∀ r ∈ processed, ∀ r' ∈ processed, r.key = r'.key → r.seq < r'.seq → r.order < r'.order) :
    orderedPerKey processed = true := by
  refine neverBack_of_pairwise (fun _ _ _ hnone => nomatch hnone) ?_
  have hsorted := List.pairwise_insertionSort (fun a b : Processed => a.order ≤ b.order) processed
  refine hsorted.imp_of_mem fun {a b} ha hb hle hkey => ?_
  rw [List.mem_insertionSort] at ha hb
  by_contra hback
  rw [not_le] at hback
  have hless := h b hb a ha hkey.symm hback
  omega

/-- **A round is held**: each item has one holder, as many items as were dropped have one, and keys
are in order. -/
theorem judge_held {style : Style} {dropped : Nat} {processed : List Processed}
    (hone : ∀ r ∈ processed, ∀ r' ∈ processed, r.item = r'.item → r.holder = r'.holder)
    (hall : dropped ≤ (processed.map Processed.item).dedup.length)
    (horder : style.ordered = true → ∀ r ∈ processed, ∀ r' ∈ processed, r.key = r'.key →
      r.seq < r'.seq → r.order < r'.order) :
    ∃ line, judge style dropped processed = .held line := by
  have hnot : ¬(style.ordered && !orderedPerKey processed) = true := by
    intro h
    rw [Bool.and_eq_true, Bool.not_eq_true'] at h
    rw [orderedPerKey_of_lt (horder h.1)] at h
    cases h.2
  unfold judge
  rw [find_holders_eq_none hone]
  dsimp only
  rw [length_holders, if_neg (not_lt.mpr hall), if_neg hnot]
  exact ⟨_, rfl⟩

/-- **A breach is seen**, and said to be injected where a record says so. -/
theorem judge_contended {style : Style} {dropped : Nat} {processed : List Processed}
    {r r' : Processed} (hr : r ∈ processed) (hr' : r' ∈ processed) (hitem : r.item = r'.item)
    (hne : r.holder ≠ r'.holder) (hinjected : r.injected = true) :
    ∃ line, judge style dropped processed = .contended (line ++ injectedMark) := by
  obtain ⟨⟨item, who⟩, hfind⟩ := exists_find_holders hr hr' hitem hne
  have hany : processed.any Processed.injected = true := List.any_eq_true.mpr ⟨r, hr, hinjected⟩
  unfold judge
  rw [hfind]
  dsimp only
  rw [if_pos hany]
  exact ⟨_, rfl⟩

end XmipEssentials.ExclusiveClaim
