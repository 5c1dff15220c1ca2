import Mathlib.Data.List.MinMax
import XmipEssentials.Records

/-!
# The board's line of a round

A piped run prints one line a round: the rollup, how many leaves the board shows and, where one of
them is not fine, the leaf it calls the worst (`summarize`). A snapshot lists the worst first, but
the board sorts what it shows by scope and then takes the first that is not fine. The first of a
sort that is taken so is the first least of those it could be (`find?_insertionSort`), so the leaf
named is a worst one just where a worst one comes before all else that is not fine, by scope and, of
one scope, as they are listed (`names_worst_iff`).

How bad each way of standing is belongs to the crate the snapshot is of, as does the rollup: here
both are parameters.
-/

namespace XmipEssentials

open Text

/-! ### The first of a sort -/

section Sorting

variable {α β : Type} [LinearOrder β] (f : α → β) (p : α → Bool) {l : List α}

/-- What an insertion into a sorted list does to the first that passes. -/
theorem find?_orderedInsert (a : α) (h : l.Pairwise fun x y => f x ≤ f y) :
    (l.orderedInsert (fun x y => f x ≤ f y) a).find? p =
      if p a then some ((l.find? p).elim a fun c => if f c < f a then c else a) else l.find? p := by
  induction l with
  | nil =>
    rw [List.orderedInsert_nil, List.find?_cons, List.find?_nil]
    cases p a with
    | true => rfl
    | false => rfl
  | cons b l ih =>
    obtain ⟨hb, hl⟩ := List.pairwise_cons.mp h
    by_cases hle : f a ≤ f b
    · rw [List.orderedInsert_cons_of_le (fun x y => f x ≤ f y) l hle]
      cases hp : p a with
      | false => rw [List.find?_cons_of_neg (Bool.eq_false_iff.mp hp), if_neg Bool.false_ne_true]
      | true =>
        -- None behind comes before what is inserted.
        rw [List.find?_cons_of_pos hp, if_pos rfl]
        cases hfirst : (b :: l).find? p with
        | none => rfl
        | some c =>
          have hac : f a ≤ f c := by
            rcases List.mem_cons.mp (List.mem_of_find?_eq_some hfirst) with rfl | hc
            · exact hle
            · exact hle.trans (hb c hc)
          rw [Option.elim_some, if_neg (not_lt_of_ge hac)]
    · rw [List.orderedInsert_of_not_le (fun x y => f x ≤ f y) l hle]
      cases hp : p b with
      | false =>
        rw [List.find?_cons_of_neg (Bool.eq_false_iff.mp hp),
          List.find?_cons_of_neg (Bool.eq_false_iff.mp hp)]
        exact ih hl
      | true =>
        rw [List.find?_cons_of_pos hp, List.find?_cons_of_pos hp, Option.elim_some,
          if_pos (lt_of_not_ge hle), ite_self]

/-- **The first that passes of a sort** is the first least of those that pass. -/
theorem find?_insertionSort (l : List α) :
    (l.insertionSort fun x y => f x ≤ f y).find? p = (l.filter p).argmin f := by
  have htotal : Std.Total fun x y : α => f x ≤ f y := ⟨fun x y => le_total (f x) (f y)⟩
  have htrans : IsTrans α fun x y => f x ≤ f y := ⟨fun _ _ _ => le_trans⟩
  induction l with
  | nil => rfl
  | cons a l ih =>
    -- `argmin` keeps the earlier of two that are equal, as the sort does.
    rw [List.insertionSort_cons, find?_orderedInsert f p a (List.pairwise_insertionSort _ l), ih]
    cases hp : p a with
    | false => rw [if_neg Bool.false_ne_true, List.filter_cons_of_neg (Bool.eq_false_iff.mp hp)]
    | true =>
      rw [if_pos rfl, List.filter_cons_of_pos hp, List.argmin_cons]
      cases (l.filter p).argmin f with
      | none => rfl
      | some c => exact (apply_ite some _ _ _)

/-- What is picked of a list comes in it in the list's order. -/
theorem idxOf_filter_le_iff [DecidableEq α] {a b : α} (ha : p a = true) (hb : p b = true) :
    (l.filter p).idxOf a ≤ (l.filter p).idxOf b ↔ l.idxOf a ≤ l.idxOf b := by
  induction l with
  | nil => rfl
  | cons c l ih =>
    cases hc : p c with
    -- one that is not kept is neither of the two, so both come one place sooner
    | false =>
      have hne {x : α} (hx : p x = true) : c ≠ x := by
        rintro rfl
        rw [hc] at hx
        cases hx
      rw [List.filter_cons_of_neg (Bool.eq_false_iff.mp hc), List.idxOf_cons_ne _ (hne ha),
        List.idxOf_cons_ne _ (hne hb), Nat.succ_le_succ_iff]
      exact ih
    | true =>
      rw [List.filter_cons_of_pos hc]
      -- the first of the list comes no later than any
      by_cases hca : c = a
      · rw [List.idxOf_cons_eq _ hca, List.idxOf_cons_eq _ hca]
        exact iff_of_true (Nat.zero_le _) (Nat.zero_le _)
      · rw [List.idxOf_cons_ne _ hca, List.idxOf_cons_ne _ hca]
        by_cases hcb : c = b
        · rw [List.idxOf_cons_eq _ hcb, List.idxOf_cons_eq _ hcb]
          exact iff_of_false (Nat.not_succ_le_zero _) (Nat.not_succ_le_zero _)
        · rw [List.idxOf_cons_ne _ hcb, List.idxOf_cons_ne _ hcb, Nat.succ_le_succ_iff,
            Nat.succ_le_succ_iff]
          exact ih

end Sorting

/-! ### The line -/

namespace Board

/-- The word a health carries on the board. -/
def word : Health → Text
  | .fine => "FINE".toList
  | .paused => "PAUSED".toList
  | .working => "WORKING".toList
  | .stressed => "STRESSED".toList
  | .exhausted => "EXHAUSTED".toList
  | .holding => "HOLDING".toList
  | .done => "DONE".toList

/-- The board shows every leaf, except that a node's appear only when not fine. -/
def shown (node : Text) (record : HealthRecord) : Bool :=
  ¬node ++ "/node/".toList <+: record.scope ∨ record.health ≠ .fine

/-- Not fine. -/
def troubled (record : HealthRecord) : Bool := record.health ≠ .fine

variable {S : Type} [Snapshot S]

/-- The rows the board shows, by scope. -/
def pairs (node : Text) (snapshot : S) : List HealthRecord :=
  ((Snapshot.health node snapshot).filter (shown node)).insertionSort fun left right =>
    left.scope ≤ right.scope

/-- The leaf the line calls the worst. -/
def trouble (node : Text) (snapshot : S) : Option HealthRecord :=
  (pairs node snapshot).find? troubled

/-- One line per round: the rollup, and the worst leaf when it is not green. -/
def summarize (rollup : Text → S → Option Health) (node : Text) (round : Nat) (snapshot : S) :
    Text :=
  let worst := (rollup node snapshot).elim "NONE".toList word
  let count := (pairs node snapshot).length
  let trouble := (trouble node snapshot).elim [] fun record =>
    "  — worst ".toList ++ record.scope ++ ": ".toList ++ record.evidence
  "round ".toList ++ (decimal round).leftpad 4 ' ' ++ ": ".toList ++ worst ++ "  (".toList ++
    decimal count ++ " leaves)".toList ++ trouble ++ ['\n']

/-! ### Whether the leaf named is a worst one -/

/-- A record stands worse than another: its health is, or it is the same and more severe. -/
def Worse (rank : Health → Nat) (x r : HealthRecord) : Prop :=
  rank r.health < rank x.health ∨ (x.health = r.health ∧ r.severity < x.severity)

/-- The leaf named is one no record shown stands worse than. -/
def NamesWorst (rank : Health → Nat) (node : Text) (snapshot : S) : Prop :=
  ∃ r ∈ trouble node snapshot, ∀ x ∈ pairs node snapshot, ¬Worse rank x r

/-- A record comes no later than another: by scope, and of one scope as they are listed. -/
def NoLater (listed : List HealthRecord) (r x : HealthRecord) : Prop :=
  r.scope < x.scope ∨ (r.scope = x.scope ∧ listed.idxOf r ≤ listed.idxOf x)

/-- Some record that is not fine, and that none shown stands worse than, comes no later than any
other that is not fine. -/
def WorstComesFirst (rank : Health → Nat) (node : Text) (snapshot : S) : Prop :=
  ∃ r ∈ Snapshot.health node snapshot, r.health ≠ .fine ∧
    (∀ x ∈ Snapshot.health node snapshot, shown node x = true → ¬Worse rank x r) ∧
    ∀ x ∈ Snapshot.health node snapshot, x.health ≠ .fine →
      NoLater (Snapshot.health node snapshot) r x

instance (rank : Health → Nat) (x r : HealthRecord) : Decidable (Worse rank x r) :=
  inferInstanceAs (Decidable (_ ∨ _))

instance (listed : List HealthRecord) (r x : HealthRecord) : Decidable (NoLater listed r x) :=
  inferInstanceAs (Decidable (_ ∨ _))

instance (rank : Health → Nat) (node : Text) (snapshot : S) :
    Decidable (WorstComesFirst rank node snapshot) :=
  inferInstanceAs (Decidable (∃ r ∈ _, _))

variable {node : Text} {snapshot : S}

private theorem shown_of_troubled {record : HealthRecord} (h : troubled record = true) :
    shown node record = true :=
  decide_eq_true (.inr (of_decide_eq_true h))

private theorem mem_pairs {record : HealthRecord} :
    record ∈ pairs node snapshot ↔ record ∈ Snapshot.health node snapshot ∧
    shown node record = true := by
  rw [pairs, List.mem_insertionSort, List.mem_filter]

/-- The leaf named is the first by scope of those not fine, whatever order the snapshot lists them
in. -/
theorem trouble_eq :
    trouble node snapshot = ((Snapshot.health node snapshot).filter troubled).argmin
      HealthRecord.scope := by
  have hfilter : ((Snapshot.health node snapshot).filter (shown node)).filter troubled =
      (Snapshot.health node snapshot).filter troubled := by
    -- Whatever is not fine is shown.
    rw [List.filter_filter]
    apply List.filter_congr
    intro record _
    cases h : troubled record with
    | false => rfl
    | true => rw [Bool.true_and, shown_of_troubled h]
  rw [trouble, pairs, find?_insertionSort, hfilter]
  congr

/-- It is one that is not fine and comes no later than any other. -/
theorem trouble_eq_some_iff {r : HealthRecord} : trouble node snapshot = some r ↔
    r ∈ Snapshot.health node snapshot ∧ r.health ≠ .fine ∧
      ∀ x ∈ Snapshot.health node snapshot, x.health ≠ .fine →
        NoLater (Snapshot.health node snapshot) r x := by
  have hfine {x : HealthRecord} : troubled x = true ↔ x.health ≠ .fine := decide_eq_true_iff
  set picked := (Snapshot.health node snapshot).filter troubled
  -- `argmin` by the scope, and of one scope the one listed first
  have hpicked : trouble node snapshot = some r ↔ r ∈ picked ∧ (∀ x ∈ picked, r.scope ≤ x.scope) ∧
      ∀ x ∈ picked, x.scope ≤ r.scope → picked.idxOf r ≤ picked.idxOf x := by
    rw [trouble_eq]
    convert List.argmin_eq_some_iff
  rw [hpicked, List.mem_filter]
  constructor
  · rintro ⟨⟨hmem, htroubled⟩, hleast, hfirst⟩
    refine ⟨hmem, hfine.mp htroubled, fun x hx hnot => ?_⟩
    have hin := List.mem_filter.mpr ⟨hx, hfine.mpr hnot⟩
    -- a scope before it, or the same scope and listed no sooner
    rcases (hleast x hin).lt_or_eq with hlt | heq
    · exact .inl hlt
    · exact .inr ⟨heq, (idxOf_filter_le_iff troubled htroubled (hfine.mpr hnot)).mp
        (hfirst x hin heq.ge)⟩
  · rintro ⟨hmem, hnot, hnoLater⟩
    refine ⟨⟨hmem, hfine.mpr hnot⟩, fun x hx => ?_, fun x hx hle => ?_⟩
    · obtain ⟨hx, htroubled⟩ := List.mem_filter.mp hx
      rcases hnoLater x hx (hfine.mp htroubled) with hlt | ⟨heq, -⟩
      · exact hlt.le
      · exact heq.le
    · obtain ⟨hx, htroubled⟩ := List.mem_filter.mp hx
      rcases hnoLater x hx (hfine.mp htroubled) with hlt | ⟨-, hlisted⟩
      · exact absurd hlt (not_lt_of_ge hle)
      · exact (idxOf_filter_le_iff troubled (hfine.mpr hnot) htroubled).mpr hlisted

/-- **When the summary names a worst leaf.** A leaf is named, and it is one none shown stands worse
than, if and only if one such that is not fine comes, by scope and then as listed, no later than any
that is not fine, however bad each health is. -/
theorem names_worst_iff (rank : Health → Nat) (node : Text) (snapshot : S) :
    NamesWorst rank node snapshot ↔ WorstComesFirst rank node snapshot := by
  constructor
  · rintro ⟨r, hr, hworst⟩
    obtain ⟨hmem, hnot, hnoLater⟩ := trouble_eq_some_iff.mp hr
    exact ⟨r, hmem, hnot, fun x hx hshown => hworst x (mem_pairs.mpr ⟨hx, hshown⟩), hnoLater⟩
  · rintro ⟨r, hmem, hnot, hworst, hnoLater⟩
    refine ⟨r, trouble_eq_some_iff.mpr ⟨hmem, hnot, hnoLater⟩, fun x hx => ?_⟩
    obtain ⟨hx, hshown⟩ := mem_pairs.mp hx
    exact hworst x hx hshown

/-- A ranking in which no health is better than fine. -/
def plainRank (health : Health) : Nat := if health = .fine then 0 else 1

/-- Two leaves stand alike, the earlier by scope the more severe, and a third is fine. -/
def earlierWorse : Records :=
  Snapshot.recordHealth ⟨"x/b".toList, .stressed, 40, "one side".toList, 2⟩
    (Snapshot.recordHealth ⟨"x/a".toList, .stressed, 45, "failed before".toList, 1⟩
      (Snapshot.recordHealth ⟨"w".toList, .fine, 0, "well".toList, 1⟩ Snapshot.new))

/-- The worst comes first, and is named. -/
theorem names_worst_iff_earlier : WorstComesFirst plainRank "x".toList earlierWorse ∧
    NamesWorst plainRank "x".toList earlierWorse := by
  have hfirst : WorstComesFirst plainRank "x".toList earlierWorse := by decide
  exact ⟨hfirst, (names_worst_iff _ _ _).mpr hfirst⟩

/-- Two leaves stand alike, the later by scope the more severe. -/
def laterWorse : Records :=
  Snapshot.recordHealth ⟨"x/b".toList, .stressed, 45, "failed before".toList, 2⟩
    (Snapshot.recordHealth ⟨"x/a".toList, .stressed, 40, "one side".toList, 1⟩ Snapshot.new)

/-- Of the two the milder is named, however bad each health is. -/
theorem names_milder : ¬∃ rank : Health → Nat, ∀ (node : Text) (snapshot : Records),
    (∃ record ∈ pairs node snapshot, record.health ≠ .fine) → NamesWorst rank node snapshot := by
  rintro ⟨rank, h⟩
  obtain ⟨r, hr, hworst⟩ := h "x".toList laterWorse
    ⟨⟨"x/a".toList, .stressed, 40, "one side".toList, 1⟩, by decide, by decide⟩
  have hnamed : trouble "x".toList laterWorse =
    some ⟨"x/a".toList, .stressed, 40, "one side".toList, 1⟩ := by decide
  obtain rfl := Option.some.inj (hnamed.symm.trans hr)
  exact hworst ⟨"x/b".toList, .stressed, 45, "failed before".toList, 2⟩ (by decide)
    (.inr ⟨rfl, by decide⟩)

end Board

end XmipEssentials
