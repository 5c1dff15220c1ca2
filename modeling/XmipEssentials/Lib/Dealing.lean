import Mathlib.Data.Int.CardIntervalMod
import Mathlib.Data.List.Perm.Basic

/-!
# A list dealt out by key

Each item of a list goes to the hand its key names. Where the keys are distinct and every item's is
among them, the hands together are the list (`perm_hands`); dealt in turn, one item after another
round `n` hands, no hand is two items larger than another (`length_dealt_le`).
-/

namespace Dealing

variable {α κ : Type} [DecidableEq κ]

/-- The items that go to a hand. -/
def hand (key : α → κ) (items : List α) (k : κ) : List α := items.filter fun item => key item = k

theorem mem_hand {key : α → κ} {items : List α} {k : κ} {item : α} :
    item ∈ hand key items k ↔ item ∈ items ∧ key item = k := by
  rw [hand, List.mem_filter, decide_eq_true_iff]

/-- What is dealt out is dealt once: the hands together are the list. -/
theorem perm_hands {key : α → κ} {keys : List κ} (hkeys : keys.Nodup) {items : List α}
    (hcovered : ∀ item ∈ items, key item ∈ keys) : (keys.flatMap (hand key items)).Perm items := by
  induction keys generalizing items with
  | nil =>
    have hnone : items = [] := List.eq_nil_iff_forall_not_mem.mpr fun item hmem =>
      List.not_mem_nil (hcovered item hmem)
    rw [hnone]
    exact .nil
  | cons k keys ih =>
    obtain ⟨hk, hkeys⟩ := List.nodup_cons.mp hkeys
    -- What is left when the first hand is dealt goes to the others as it did.
    have hrest : keys.flatMap (hand key items) =
        keys.flatMap (hand key (items.filter fun item => !decide (key item = k))) := by
      apply List.flatMap_congr
      intro other hother
      rw [hand, hand, List.filter_filter]
      apply List.filter_congr
      intro item _
      rw [Bool.eq_iff_iff, Bool.and_eq_true, decide_eq_true_iff, Bool.not_eq_true',
        decide_eq_false_iff_not]
      refine (and_iff_left_of_imp fun hkey hsame => hk ?_).symm
      rwa [← hsame, hkey]
    rw [List.flatMap_cons, hrest]
    refine (List.Perm.append_left _ (ih hkeys fun item hmem => ?_)).trans
      (List.filter_append_perm _ items)
    obtain ⟨hitem, hother⟩ := List.mem_filter.mp hmem
    rw [Bool.not_eq_true', decide_eq_false_iff_not] at hother
    exact (List.mem_cons.mp (hcovered item hitem)).resolve_left hother

/-! ### Dealt in turn -/

/-- How many of the first `len` places of a deal round `n` hands are a hand's. -/
theorem count_dealt {n party : Nat} (hparty : party < n) (len : Nat) :
    Nat.count (fun place => place % n = party) len = len / n + if party < len % n then 1
      else 0 := by
  have hcount := Nat.count_modEq_card len (Nat.zero_lt_of_lt hparty) party
  rw [Nat.mod_eq_of_lt hparty] at hcount
  simp only [Nat.ModEq, Nat.mod_eq_of_lt hparty] at hcount
  exact hcount

variable {items : List α} {place : α → Nat}

theorem length_dealt (hplaces : items.map place = List.range items.length) {n party : Nat}
    (hparty : party < n) :
    (hand (fun item => place item % n) items party).length =
      items.length / n + if party < items.length % n then 1 else 0 := by
  rw [hand, ← List.countP_eq_length_filter, ← count_dealt hparty, Nat.count, ← hplaces,
    List.countP_map]
  rfl

/-- **No hand of a list dealt in turn is two items larger than another.** -/
theorem length_dealt_le (hplaces : items.map place = List.range items.length) {n party other : Nat}
    (hparty : party < n) (hother : other < n) :
    (hand (fun item => place item % n) items party).length ≤
      (hand (fun item => place item % n) items other).length + 1 := by
  rw [length_dealt hplaces hparty, length_dealt hplaces hother]
  split_ifs <;> omega

end Dealing
