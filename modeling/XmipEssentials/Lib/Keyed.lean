import Mathlib.Algebra.GroupWithZero.Nat
import Mathlib.Data.List.Nodup
import Mathlib.Order.Lattice

/-!
# Collections that keep the last of each key

A collection into which elements are recorded, and which keeps one element to a key: the last
recorded. `KeepsLast` is that law, of any state and any way of recording into it; `mem_recordAll`
says what a run of recordings leaves. `Keep` is a list that keeps the law.

`Counts` counts by key, in the order of the keys.
-/

namespace Keyed

variable {α κ σ : Type}

/-- `record` puts an element into the collection `all` reads, in place of the one of its key. -/
structure KeepsLast (key : α → κ) (record : α → σ → σ) (all : σ → List α) : Prop where
  mem_record : ∀ a x s, x ∈ all (record a s) ↔ x = a ∨ (x ∈ all s ∧ key x ≠ key a)
  nodup : ∀ s, ((all s).map key).Nodup

/-- All of a list recorded, in order. -/
def recordAll (record : α → σ → σ) (l : List α) (s : σ) : σ := l.foldl (fun s a => record a s) s

@[simp] theorem recordAll_nil (record : α → σ → σ) (s : σ) : recordAll record [] s = s := rfl

@[simp] theorem recordAll_cons (record : α → σ → σ) (a : α) (l : List α) (s : σ) :
    recordAll record (a :: l) s = recordAll record l (record a s) := rfl

theorem recordAll_append (record : α → σ → σ) (l l' : List α) (s : σ) :
    recordAll record (l ++ l') s = recordAll record l' (recordAll record l s) := List.foldl_append

/-- What does not read the collection recorded into is as it was. -/
theorem recordAll_unchanged {β : Type} {record : α → σ → σ} {read : σ → β}
    (h : ∀ a s, read (record a s) = read s) (l : List α) (s : σ) :
    read (recordAll record l s) = read s := by
  induction l generalizing s with
  | nil => rfl
  | cons a l ih => rw [recordAll_cons, ih, h]

namespace KeepsLast

variable {key : α → κ} {record : α → σ → σ} {all : σ → List α} (h : KeepsLast key record all)

include h

/-- A run of recordings leaves nothing but what it recorded and what was there. -/
theorem of_mem_recordAll {l : List α} {x : α} {s : σ} (hx : x ∈ all (recordAll record l s)) :
    x ∈ l ∨ x ∈ all s := by
  induction l generalizing s with
  | nil => exact .inr hx
  | cons a l ih =>
    rw [recordAll_cons] at hx
    rcases ih hx with hl | hs
    · exact .inl (List.mem_cons_of_mem a hl)
    · rw [h.mem_record] at hs
      rcases hs with rfl | ⟨hs, -⟩
      · exact .inl List.mem_cons_self
      · exact .inr hs

/-- **A run of recordings with distinct keys** leaves all of what it recorded, and of the rest what
has another key. -/
theorem mem_recordAll {l : List α} (hl : (l.map key).Nodup) (x : α) (s : σ) :
    x ∈ all (recordAll record l s) ↔ x ∈ l ∨ (x ∈ all s ∧ key x ∉ l.map key) := by
  induction l generalizing s with
  | nil => simp
  | cons a l ih =>
    have hnot : key a ∉ l.map key := (List.nodup_cons.mp hl).1
    rw [recordAll_cons, ih (List.nodup_cons.mp hl).2, h.mem_record]
    simp only [List.mem_cons, List.map_cons, not_or]
    constructor
    · rintro (hx | ⟨rfl | ⟨hx, hne⟩, hnew⟩)
      · exact .inl (.inr hx)
      · exact .inl (.inl rfl)
      · exact .inr ⟨hx, hne, hnew⟩
    · rintro ((rfl | hx) | ⟨hx, hne, hnew⟩)
      · exact .inr ⟨.inl rfl, hnot⟩
      · exact .inl hx
      · exact .inr ⟨.inr ⟨hx, hne⟩, hnew⟩

/-- What is kept of a key is as it was where none of that key is recorded. -/
theorem mem_recordAll_of_ne {l : List α} {k : κ} (hl : ∀ a ∈ l, key a ≠ k) (x : α) (s : σ) :
    x ∈ all (recordAll record l s) ∧ key x = k ↔ x ∈ all s ∧ key x = k := by
  induction l generalizing s with
  | nil => rfl
  | cons a l ih =>
    rw [List.forall_mem_cons] at hl
    rw [recordAll_cons, ih hl.2, h.mem_record]
    constructor
    · rintro ⟨rfl | ⟨hx, -⟩, heq⟩
      · exact absurd heq hl.1
      · exact ⟨hx, heq⟩
    · rintro ⟨hx, heq⟩
      exact ⟨.inr ⟨hx, fun hxa => hl.1 (hxa.symm.trans heq)⟩, heq⟩

/-- What is kept of a key is the last recorded of it. -/
theorem mem_recordAll_last {l l' : List α} {a : α} (hl' : ∀ x ∈ l', key x ≠ key a) (x : α) (s : σ) :
    x ∈ all (recordAll record (l ++ a :: l') s) ∧ key x = key a ↔ x = a := by
  rw [recordAll_append, recordAll_cons, h.mem_recordAll_of_ne hl', h.mem_record]
  constructor
  · rintro ⟨rfl | ⟨-, hne⟩, heq⟩
    · rfl
    · exact absurd heq hne
  · rintro rfl
    exact ⟨.inl rfl, rfl⟩

/-- One collection copied into another: all of the one, and of the other what has a key of none. -/
theorem mem_copy (x : α) (into source : σ) :
    x ∈ all (recordAll record (all source) into) ↔
      x ∈ all source ∨ (x ∈ all into ∧ key x ∉ (all source).map key) :=
  h.mem_recordAll (h.nodup source) x into

end KeepsLast

/-! ### A list that keeps the last of each key -/

/-- A list with one element to a key. -/
@[ext] structure Keep (key : α → κ) where
  all : List α
  nodup : (all.map key).Nodup

namespace Keep

variable {key : α → κ}

/-- Nothing recorded yet. -/
def empty (key : α → κ) : Keep key := ⟨[], List.nodup_nil⟩

variable [DecidableEq κ]

/-- An element put last, in place of the one of its key. -/
def put (a : α) (k : Keep key) : Keep key where
  all := k.all.filter (fun x => key x ≠ key a) ++ [a]
  nodup := by
    rw [List.map_append, List.map_singleton, List.nodup_append]
    refine ⟨k.nodup.sublist (List.filter_sublist.map key), List.nodup_singleton _, ?_⟩
    intro b hb c hc heq
    obtain ⟨x, hx, rfl⟩ := List.mem_map.mp hb
    rw [List.mem_singleton] at hc
    exact (of_decide_eq_true (List.mem_filter.mp hx).2) (heq.trans hc)

@[simp] theorem put_all (a : α) (k : Keep key) :
    (k.put a).all = k.all.filter (fun x => key x ≠ key a) ++ [a] := rfl

theorem keepsLast : KeepsLast key (put : α → Keep key → Keep key) Keep.all where
  mem_record a x k := by
    rw [put_all, List.mem_append, List.mem_filter, List.mem_singleton, decide_eq_true_iff, or_comm]
  nodup k := k.nodup

end Keep

/-! ### Counts by key -/

/-- One more of the key, in a list in the order of its keys. -/
def bump [LinearOrder κ] (k : κ) : List (κ × Nat) → List (κ × Nat)
  | [] => [(k, 1)]
  | (k', n) :: l =>
    if k = k' then (k', n + 1) :: l
    else if k < k' then (k, 1) :: (k', n) :: l
    else (k', n) :: bump k l

section Bump

variable [LinearOrder κ] {k : κ} {l : List (κ × Nat)}

theorem mem_keys_bump {x : κ} (h : x ∈ (bump k l).map Prod.fst) : x = k ∨ x ∈ l.map Prod.fst := by
  induction l with
  | nil => exact .inl (List.mem_singleton.mp h)
  | cons one l ih =>
    unfold bump at h
    split_ifs at h with heq hlt
    · exact .inr h
    · exact List.mem_cons.mp h
    · rcases List.mem_cons.mp h with rfl | h
      · exact .inr List.mem_cons_self
      · exact (ih h).imp_right (List.mem_cons_of_mem _)

theorem sorted_bump (h : (l.map Prod.fst).Pairwise (· < ·)) :
    ((bump k l).map Prod.fst).Pairwise (· < ·) := by
  induction l with
  | nil => exact List.pairwise_singleton _ _
  | cons one l ih =>
    obtain ⟨hfirst, hrest⟩ := List.pairwise_cons.mp h
    unfold bump
    split_ifs with heq hlt
    · exact h
    · refine List.pairwise_cons.mpr ⟨fun x hx => ?_, h⟩
      rcases List.mem_cons.mp hx with rfl | hx
      · exact hlt
      · exact lt_trans hlt (hfirst x hx)
    · refine List.pairwise_cons.mpr ⟨fun x hx => ?_, ih hrest⟩
      rcases mem_keys_bump hx with rfl | hx
      · exact lt_of_le_of_ne (not_lt.mp hlt) (Ne.symm heq)
      · exact hfirst x hx

end Bump

/-- How many there are of each key, in the order of the keys. -/
structure Counts (κ : Type) [LinearOrder κ] where
  all : List (κ × Nat)
  sorted : (all.map Prod.fst).Pairwise (· < ·)

namespace Counts

variable [LinearOrder κ]

/-- None of any key. -/
def none : Counts κ := ⟨[], List.Pairwise.nil⟩

/-- One more of the key. -/
def add (c : Counts κ) (k : κ) : Counts κ := ⟨bump k c.all, sorted_bump c.sorted⟩

/-- How many there are of the key. -/
def of (c : Counts κ) (k : κ) : Nat := (c.all.lookup k).getD 0

/-- How many there are of all keys. -/
def total (c : Counts κ) : Nat := (c.all.map Prod.snd).sum

@[simp] theorem of_none (k : κ) : (none : Counts κ).of k = 0 := rfl

@[simp] theorem total_none : (none : Counts κ).total = 0 := rfl

theorem lookup_eq_none {l : List (κ × Nat)} {k : κ} (h : k ∉ l.map Prod.fst) :
    l.lookup k = Option.none := by
  refine List.lookup_eq_none_iff.mpr fun one hone => bne_iff_ne.mpr ?_
  rintro rfl
  exact h (List.mem_map_of_mem hone)

theorem lookup_cons_of_ne {l : List (κ × Nat)} {x k : κ} (n : Nat) (h : x ≠ k) :
    ((k, n) :: l).lookup x = l.lookup x := by
  rw [List.lookup_cons, beq_false_of_ne h]

theorem lookup_bump {l : List (κ × Nat)} (h : (l.map Prod.fst).Pairwise (· < ·)) (k x : κ) :
    ((bump k l).lookup x).getD 0 = (l.lookup x).getD 0 + if x = k then 1 else 0 := by
  -- The keys stand in order, so a key is either met, passed before it, or further on.
  induction l with
  | nil =>
    change (([(k, 1)] : List (κ × Nat)).lookup x).getD 0 = _
    by_cases hx : x = k
    · rw [hx, List.lookup_cons_self, if_pos rfl]
      rfl
    · rw [lookup_cons_of_ne 1 hx, if_neg hx]
      rfl
  | cons one l ih =>
    obtain ⟨k', n⟩ := one
    obtain ⟨hfirst, hrest⟩ := List.pairwise_cons.mp h
    unfold bump
    by_cases heq : k = k'
    · rw [if_pos heq, ← heq]
      by_cases hx : x = k
      · rw [hx, List.lookup_cons_self, List.lookup_cons_self, if_pos rfl]
        rfl
      · rw [lookup_cons_of_ne _ hx, lookup_cons_of_ne _ hx, if_neg hx, Nat.add_zero]
    · rw [if_neg heq]
      by_cases hlt : k < k'
      · rw [if_pos hlt]
        by_cases hx : x = k
        · -- A key before the first is none of the list's.
          have hnot : k ∉ ((k', n) :: l).map Prod.fst := by
            intro hmem
            rcases List.mem_cons.mp hmem with hfst | hmem
            · exact heq hfst
            · exact lt_asymm hlt (hfirst k hmem)
          rw [hx, lookup_eq_none hnot, List.lookup_cons_self, if_pos rfl]
          rfl
        · rw [lookup_cons_of_ne 1 hx, if_neg hx, Nat.add_zero]
      · rw [if_neg hlt]
        by_cases hx : x = k'
        · rw [hx, List.lookup_cons_self, List.lookup_cons_self, if_neg (Ne.symm heq), Nat.add_zero]
        · rw [lookup_cons_of_ne n hx, lookup_cons_of_ne n hx]
          exact ih hrest

theorem of_add (c : Counts κ) (k x : κ) : (c.add k).of x = c.of x + if x = k then 1 else 0 :=
  lookup_bump c.sorted k x

theorem total_add (c : Counts κ) (k : κ) : (c.add k).total = c.total + 1 := by
  have hbump (l : List (κ × Nat)) : ((bump k l).map Prod.snd).sum = (l.map Prod.snd).sum + 1 := by
    induction l with
    | nil => rfl
    | cons one l ih =>
      unfold bump
      split_ifs
      · simp only [List.map_cons, List.sum_cons]
        omega
      · simp only [List.map_cons, List.sum_cons]
        omega
      · simp only [List.map_cons, List.sum_cons, ih]
        omega
  exact hbump c.all

end Counts

end Keyed
