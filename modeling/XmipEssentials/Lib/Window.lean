import Mathlib.Data.List.Nodup
import Mathlib.Data.Nat.ModEq

/-!
# Windows that go round a list

A bounded round takes a window of the places of a list, going round its end, and the next round goes
on where it left off (`places`, `cursorAt`, `rounds`). The windows of consecutive rounds are one
long window (`flatten_rounds`), and a window as long as the list meets each place once
(`existsUnique_place`): so over any rounds no place is met twice more often than another
(`count_rounds_le`), and none is left out of rounds as long as the list (`exists_mem_of_le`).
-/

namespace Window

/-! ### One window -/

/-- The places of a list of `n` that a window of `count` takes from `cursor`. -/
def places (n cursor count : Nat) : List Nat :=
  (List.range count).map fun step => (cursor + step) % n

@[simp] theorem length_places (n cursor count : Nat) : (places n cursor count).length = count := by
  rw [places, List.length_map, List.length_range]

theorem mem_places {n cursor count place : Nat} :
    place ∈ places n cursor count ↔ ∃ step < count, (cursor + step) % n = place := by
  simp only [places, List.mem_map, List.mem_range]

theorem lt_of_mem_places {n cursor count place : Nat} (hn : 0 < n)
    (h : place ∈ places n cursor count) :
    place < n := by
  obtain ⟨step, -, rfl⟩ := mem_places.mp h
  exact Nat.mod_lt _ hn

/-- **Of any `n` numbers in a row one is at each place.** -/
theorem existsUnique_place {n place : Nat} (hplace : place < n) (first : Nat) :
    ∃! number, first ≤ number ∧ number < first + n ∧ number % n = place := by
  have hn : 0 < n := Nat.zero_lt_of_lt hplace
  have hfirst : first % n < n := Nat.mod_lt _ hn
  have hsplit : n * (first / n) + first % n = first := Nat.div_add_mod first n
  -- The place is ahead of the first number's own, or it is met after the end.
  rcases Nat.lt_or_ge place (first % n) with hbehind | hahead
  · refine ⟨n * (first / n) + n + place, ⟨by omega, by omega, ?_⟩, ?_⟩
    · rw [← Nat.mul_succ, Nat.mul_add_mod, Nat.mod_eq_of_lt hplace]
    · rintro other ⟨hle, hlt, hother⟩
      exact Nat.ModEq.eq_of_abs_lt (m := n)
        (by rw [Nat.ModEq, hother, ← Nat.mul_succ, Nat.mul_add_mod, Nat.mod_eq_of_lt hplace])
        (by rw [abs_lt]; omega)
  · refine ⟨n * (first / n) + place, ⟨by omega, by omega, ?_⟩, ?_⟩
    · rw [Nat.mul_add_mod, Nat.mod_eq_of_lt hplace]
    · rintro other ⟨hle, hlt, hother⟩
      exact Nat.ModEq.eq_of_abs_lt (m := n)
        (by rw [Nat.ModEq, hother, Nat.mul_add_mod, Nat.mod_eq_of_lt hplace])
        (by rw [abs_lt]; omega)

theorem nodup_places {n count : Nat} (hcount : count ≤ n) (cursor : Nat) :
    (places n cursor count).Nodup := by
  refine List.Nodup.map_on (fun step hstep step' hstep' heq => ?_) List.nodup_range
  have hlt := List.mem_range.mp hstep
  have hlt' := List.mem_range.mp hstep'
  have hmod : cursor + step ≡ cursor + step' [MOD n] := heq
  exact (Nat.ModEq.add_left_cancel' cursor hmod).eq_of_lt_of_lt (by omega) (by omega)

/-- A window as long as the list takes every place. -/
theorem mem_places_of_le {n count place : Nat} (hplace : place < n) (hcount : n ≤ count)
    (cursor : Nat) :
    place ∈ places n cursor count := by
  obtain ⟨number, ⟨hle, hlt, hmod⟩, -⟩ := existsUnique_place hplace cursor
  refine mem_places.mpr ⟨number - cursor, by omega, ?_⟩
  rwa [Nat.add_sub_cancel' hle]

/-- Two windows, the second from where the first ends, are one. -/
theorem places_append (n cursor count count' : Nat) :
    places n cursor count ++ places n ((cursor + count) % n) count' =
      places n cursor (count + count') := by
  unfold places
  rw [List.range_add, List.map_append, List.map_map]
  congr 1
  apply List.map_congr_left
  intro step _
  rw [Function.comp_apply, Nat.mod_add_mod, Nat.add_assoc]

/-- A window takes each place as often as it goes round the list, and once more at the most. -/
theorem count_places {n place : Nat} (hplace : place < n) (cursor count : Nat) :
    count / n ≤ (places n cursor count).count place ∧
      (places n cursor count).count place ≤ count / n + 1 := by
  have hn : 0 < n := Nat.zero_lt_of_lt hplace
  induction count using Nat.strong_induction_on generalizing cursor with
  | _ count ih =>
    rcases Nat.lt_or_ge count n with hshort | hlong
    · -- less than once round: no place comes twice
      rw [Nat.div_eq_of_lt hshort]
      exact ⟨Nat.zero_le _, List.nodup_iff_count_le_one.mp (nodup_places hshort.le cursor) place⟩
    · -- Once round the list, and then what is left.
      have honce : (places n cursor n).count place = 1 :=
        List.count_eq_one_of_mem (nodup_places le_rfl cursor)
          (mem_places_of_le hplace le_rfl cursor)
      have hsplit := places_append n cursor n (count - n)
      rw [Nat.add_sub_cancel' hlong] at hsplit
      have hdiv : count / n = (count - n) / n + 1 := by
        rw [← Nat.add_div_right _ hn, Nat.sub_add_cancel hlong]
      obtain ⟨hle, hge⟩ := ih (count - n) (by omega) ((cursor + n) % n)
      rw [← hsplit, List.count_append, honce, hdiv]
      omega

/-! ### Rounds of windows -/

/-- Where a round starts: the rounds before it took `count` places each. -/
def cursorAt (n start count round : Nat) : Nat := (start + round * count) % n

/-- The places of a number of rounds from one of them on, round by round. -/
def rounds (n start count first number : Nat) : List (List Nat) :=
  (List.range number).map fun round => places n (cursorAt n start count (first + round)) count

theorem cursorAt_zero {n start : Nat} (h : start < n) (count : Nat) :
    cursorAt n start count 0 = start := by
  rw [cursorAt, Nat.zero_mul, Nat.add_zero, Nat.mod_eq_of_lt h]

theorem cursorAt_succ (n start count round : Nat) :
    cursorAt n start count (round + 1) = (cursorAt n start count round + count) % n := by
  rw [cursorAt, cursorAt, Nat.mod_add_mod, Nat.succ_mul, Nat.add_assoc]

theorem cursorAt_lt {n : Nat} (hn : 0 < n) (start count round : Nat) :
    cursorAt n start count round < n :=
  Nat.mod_lt _ hn

/-- **The windows of consecutive rounds are one.** -/
theorem flatten_rounds (n start count first number : Nat) :
    (rounds n start count first number).flatten =
      places n (cursorAt n start count first) (number * count) := by
  induction number with
  | zero => rw [Nat.zero_mul]; rfl
  | succ number ih =>
    have hnext : cursorAt n start count (first + number) =
        (cursorAt n start count first + number * count) % n := by
      rw [cursorAt, cursorAt, Nat.mod_add_mod, Nat.add_mul, Nat.add_assoc]
    rw [rounds, List.range_succ, List.map_append, List.flatten_append, ← rounds, ih,
      List.map_singleton, List.flatten_singleton, hnext, places_append, Nat.succ_mul]

/-- **No place is taken twice more often than another.** -/
theorem count_rounds_le {n place place' : Nat} (hplace : place < n) (hplace' : place' < n)
    (start count first number : Nat) :
    (rounds n start count first number).flatten.count place ≤
      (rounds n start count first number).flatten.count place' + 1 := by
  rw [flatten_rounds]
  have hmost := (count_places hplace (cursorAt n start count first) (number * count)).2
  have hleast := (count_places hplace' (cursorAt n start count first) (number * count)).1
  omega

/-- **Every place is taken in rounds that are as long as the list together.** -/
theorem exists_mem_of_le {n count number place : Nat} (hplace : place < n)
    (hlong : n ≤ number * count) (start first : Nat) :
    ∃ round, first ≤ round ∧ round < first + number ∧
    place ∈ places n (cursorAt n start count round) count := by
  have hmem := mem_places_of_le hplace hlong (cursorAt n start count first)
  rw [← flatten_rounds, List.mem_flatten] at hmem
  obtain ⟨window, hwindow, hin⟩ := hmem
  obtain ⟨step, hstep, rfl⟩ := List.mem_map.mp hwindow
  exact ⟨first + step, Nat.le_add_right _ _, Nat.add_lt_add_left (List.mem_range.mp hstep) first,
    hin⟩

end Window
