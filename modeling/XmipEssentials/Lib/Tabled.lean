import Mathlib.Data.List.AList
import Mathlib.Data.List.Induction
import XmipEssentials.Lib.Keyed

/-!
# Tables that fold what is said of each key

A table holds a value to a key, and each thing said of a key is folded into the key's value; a key
of which nothing was said has none. A table *tells* a history where it holds of each key the fold of
what the history says of it, in its order (`Tells`): the empty table tells the empty history, and
one more thing said keeps it so (`Tells.enter`).

What is folded is often reported at once, into a collection that keeps the last of each key. A round
of it leaves the report of every key the round says something of, of the whole history
(`Tells.reported`), whatever keys the round repeats.
-/

namespace Tabled

open Keyed

variable {κ ι τ σ α : Type} [DecidableEq κ]

/-- What a history says of a key, in its order. -/
def saidOf (k : κ) (history : List (κ × ι)) : List ι :=
  (history.filter fun entry => entry.1 = k).map Prod.snd

@[simp] theorem saidOf_nil (k : κ) : saidOf k ([] : List (κ × ι)) = [] := rfl

theorem saidOf_append (k : κ) (history more : List (κ × ι)) :
    saidOf k (history ++ more) = saidOf k history ++ saidOf k more := by
  rw [saidOf, List.filter_append, List.map_append]
  rfl

theorem saidOf_singleton_self (k : κ) (i : ι) : saidOf k [(k, i)] = [i] := by
  rw [saidOf, List.filter_singleton, decide_eq_true rfl]
  rfl

theorem saidOf_singleton_of_ne {k : κ} {entry : κ × ι} (h : entry.1 ≠ k) :
    saidOf k [entry] = [] := by
  rw [saidOf, List.filter_singleton, decide_eq_false h]
  rfl

theorem saidOf_eq_nil {k : κ} {history : List (κ × ι)} :
    saidOf k history = [] ↔ k ∉ history.map Prod.fst := by
  rw [saidOf, List.map_eq_nil_iff, List.filter_eq_nil_iff, List.mem_map, not_exists]
  simp only [decide_eq_true_eq, not_and]

/-! ### The table -/

variable (fold : τ → ι → τ) (zero : τ)

/-- What a table holds of a key, or what it would begin with. -/
def holds (table : AList fun _ : κ => τ) (k : κ) : τ := (table.lookup k).getD zero

/-- The table with one more thing said. -/
def enter (table : AList fun _ : κ => τ) (entry : κ × ι) : AList fun _ : κ => τ :=
  table.insert entry.1 (fold (holds zero table entry.1) entry.2)

/-- A table tells a history: it holds of each key the fold of what was said of it. -/
def Tells (table : AList fun _ : κ => τ) (history : List (κ × ι)) : Prop :=
  ∀ k, table.lookup k = if saidOf k history = [] then none
    else some ((saidOf k history).foldl fold zero)

variable {fold zero} {table : AList fun _ : κ => τ} {history : List (κ × ι)}

theorem tells_empty : Tells fold zero (∅ : AList fun _ : κ => τ) ([] : List (κ × ι)) :=
  fun k => AList.lookup_empty k

/-- What is held of a key is the fold, also where nothing was said. -/
theorem Tells.holds_eq (h : Tells fold zero table history) (k : κ) :
    holds zero table k = (saidOf k history).foldl fold zero := by
  rw [holds, h k]
  split_ifs with hnone
  · rw [hnone]
    rfl
  · rfl

/-- **One more thing said** is told too. -/
theorem Tells.enter (h : Tells fold zero table history) (entry : κ × ι) :
    Tells fold zero (enter fold zero table entry) (history ++ [entry]) := by
  obtain ⟨key, i⟩ := entry
  intro k
  rw [Tabled.enter, saidOf_append]
  by_cases hk : key = k
  · subst hk
    rw [AList.lookup_insert, h.holds_eq, saidOf_singleton_self, List.foldl_append,
      if_neg (List.append_ne_nil_of_right_ne_nil _
      (List.cons_ne_nil i []))]
    rfl
  · rw [AList.lookup_insert_ne (Ne.symm hk), saidOf_singleton_of_ne hk, List.append_nil, h k]

theorem Tells.enterAll (h : Tells fold zero table history) (more : List (κ × ι)) :
    Tells fold zero (more.foldl (Tabled.enter fold zero) table) (history ++ more) := by
  induction more generalizing table history with
  | nil => rwa [List.append_nil]
  | cons entry more ih =>
    have hrest := ih (h.enter entry)
    rwa [List.append_assoc, List.singleton_append] at hrest

/-- A table holds the keys something was said of, and of each the fold. -/
theorem Tells.lookup_eq_some (h : Tells fold zero table history) {k : κ} {t : τ} :
    table.lookup k = some t ↔ k ∈ history.map Prod.fst ∧
    t = (saidOf k history).foldl fold zero := by
  rw [h k]
  split_ifs with hnone
  · exact iff_of_false nofun fun hmem => saidOf_eq_nil.mp hnone hmem.1
  · rw [Option.some.injEq, eq_comm]
    exact (and_iff_right (not_not.mp fun hmem => hnone (saidOf_eq_nil.mpr hmem))).symm

/-! ### Reported as it is folded -/

variable (fold zero) (report : κ → τ → α) (record : α → σ → σ)

/-- One more thing said, and what the table then holds of its key reported. -/
def reporting (into : (AList fun _ : κ => τ) × σ) (entry : κ × ι) : (AList fun _ : κ => τ) × σ :=
  let table := enter fold zero into.1 entry
  (table, record (report entry.1 (holds zero table entry.1)) into.2)

/-- What is reported is the value just folded. -/
theorem reporting_eq (table : AList fun _ : κ => τ) (s : σ) (entry : κ × ι) :
    reporting fold zero report record (table, s) entry =
      (table.insert entry.1 (fold (holds zero table entry.1) entry.2),
        record (report entry.1 (fold (holds zero table entry.1) entry.2)) s) := by
  have hholds : holds zero (enter fold zero table entry) entry.1 =
    fold (holds zero table entry.1) entry.2 := by
    rw [enter, holds, AList.lookup_insert]
    rfl
  rw [reporting, hholds]
  rfl

/-- What does not read the collection reported into is as it was. -/
theorem foldl_reporting_unchanged {β : Type} {read : σ → β} (h : ∀ a s, read (record a s) = read s)
    (round : List (κ × ι)) (into : (AList fun _ : κ => τ) × σ) :
    read (round.foldl (reporting fold zero report record) into).2 = read into.2 := by
  induction round generalizing into with
  | nil => rfl
  | cons entry round ih => exact (ih _).trans (h _ _)

variable {fold zero} {report} {record} {key : α → κ} {all : σ → List α}

/-- **A round reports** of every key it says something of what the whole history comes to, and of no
other. -/
theorem Tells.reported (h : Tells fold zero table history) (hkeeps : KeepsLast key record all)
    (hreport : ∀ k t, key (report k t) = k) (round : List (κ × ι)) (s : σ) :
    Tells fold zero (round.foldl (reporting fold zero report record) (table, s)).1
      (history ++ round) ∧
      ∀ x, x ∈ all (round.foldl (reporting fold zero report record) (table, s)).2 ↔
        if key x ∈ round.map Prod.fst then
          x = report (key x) ((saidOf (key x) (history ++ round)).foldl fold zero)
        else x ∈ all s := by
  -- By the last thing said: it is the last of its key.
  induction round using List.reverseRecOn with
  | nil =>
    rw [List.append_nil]
    exact ⟨h, fun x => by rw [List.map_nil, if_neg List.not_mem_nil]; rfl⟩
  | append_singleton round entry ih =>
    obtain ⟨htells, hall⟩ := ih
    have hentered := htells.enter entry
    rw [List.foldl_append, List.foldl_cons, List.foldl_nil, ← List.append_assoc]
    refine ⟨hentered, fun x => ?_⟩
    rw [reporting, hkeeps.mem_record, hall, hreport, hentered.holds_eq]
    by_cases hx : key x = entry.1
    · -- What was reported of its key before is gone.
      have hmem : key x ∈ (round ++ [entry]).map Prod.fst := by
        rw [List.map_append, List.map_singleton, hx]
        exact List.mem_append_right _ (List.mem_singleton_self _)
      rw [if_pos hmem, hx]
      exact or_iff_left fun hold => hold.2 rfl
    · have hmem : key x ∈ (round ++ [entry]).map Prod.fst ↔ key x ∈ round.map Prod.fst := by
        rw [List.map_append, List.map_singleton, List.mem_append, List.mem_singleton,
          or_iff_left hx]
      have hne :
        x ≠ report entry.1 ((saidOf entry.1 (history ++ round ++ [entry])).foldl fold zero) := by
        rintro rfl
        exact hx (hreport _ _)
      rw [saidOf_append (key x) (history ++ round), saidOf_singleton_of_ne (Ne.symm hx),
        List.append_nil, or_iff_right hne, and_iff_left hx]
      exact iff_of_eq (if_congr hmem rfl rfl).symm

end Tabled
