import Mathlib.Data.List.Induction

/-!
# A list written round

A list grows until it has as many items as it may, and from then on each item is written over the
oldest, at a place that goes round. Read from that place on, it is the items written, less all but
the last of them (`Round.ofAll`).
-/

namespace Cyclic

variable {α : Type} {cap : Nat}

/-- An item added to a list, and the place to write at next: behind the others while there is room,
else over the one at the place. -/
def put (cap : Nat) (item : α) (l : List α) (next : Nat) : List α × Nat :=
  if l.length < cap then (l ++ [item], next) else (l.set next item, (next + 1) % cap)

/-- Items added one after another, from none on. -/
def putAll (cap : Nat) (items : List α) : List α × Nat :=
  items.foldl (fun written item => put cap item written.1 written.2) ([], 0)

/-- A list read from a place on, and round to it. -/
def readFrom (next : Nat) (l : List α) : List α := l.drop next ++ l.take next

theorem readFrom_zero (l : List α) : readFrom 0 l = l := List.append_nil l

theorem readFrom_append (a b : List α) : readFrom a.length (a ++ b) = b ++ a := by
  rw [readFrom, List.drop_left, List.take_left]

theorem perm_readFrom (next : Nat) (l : List α) : (readFrom next l).Perm l := by
  apply List.perm_append_comm.trans
  rw [List.take_append_drop]

/-- What is written after so many items: the last of them, as many as may be, in their order from
the place to write at on; and the place is the first until the list is full. -/
structure Round (cap : Nat) (items l : List α) (next : Nat) : Prop where
  held : readFrom next l = items.drop (items.length - cap)
  inside : next < cap
  first : l.length < cap → next = 0

namespace Round

variable {items l : List α} {next : Nat}

theorem length (h : Round cap items l next) : l.length = min items.length cap := by
  rw [← (perm_readFrom next l).length_eq, h.held, List.length_drop]
  omega

/-- A list with room holds all there is. -/
theorem put_room (h : Round cap items l next) (item : α) (hroom : l.length < cap) :
    Round cap (items ++ [item]) (l ++ [item]) next := by
  have hlength := h.length
  have hnext := h.first hroom
  subst hnext
  refine ⟨?_, h.inside, fun _ => rfl⟩
  have hnone : items.length - cap = 0 := by omega
  have hstill : (items ++ [item]).length - cap = 0 := by
    rw [List.length_append, List.length_singleton]
    omega
  have hheld := h.held
  rw [readFrom_zero, hnone, List.drop_zero] at hheld
  rw [readFrom_zero, hstill, List.drop_zero, hheld]

/-- The item written over is the oldest, and the next to be read first is the one behind it. -/
theorem put_full (h : Round cap items l next) (item : α) (hfull : l.length = cap) :
    Round cap (items ++ [item]) (l.set next item) ((next + 1) % cap) := by
  have hlength := h.length
  have hinside := h.inside
  have hlong : cap ≤ items.length := by omega
  refine ⟨?_, Nat.mod_lt _ (Nat.zero_lt_of_lt hinside), fun hroom => ?_⟩
  · -- Split the list at the place: the oldest item, those behind it, and those written since the
    -- last time round.
    obtain ⟨since, behind, hsplit, hsince⟩ : ∃ since behind, l = since ++ behind ∧
      since.length = next :=
      ⟨l.take next, l.drop next, (List.take_append_drop next l).symm,
        List.length_take_of_le (by omega)⟩
    subst hsplit hsince
    rw [List.length_append] at hfull
    cases behind with
    | nil => exact absurd hfull (by rw [List.length_nil]; omega)
    | cons oldest behind =>
      have hheld := h.held
      rw [readFrom_append] at hheld
      have hlast : (items ++ [item]).drop ((items ++ [item]).length - cap) = behind ++ since ++
        [item] := by
        have hmore : (items ++ [item]).length - cap = items.length - cap + 1 := by
          rw [List.length_append, List.length_singleton]
          exact Nat.sub_add_comm hlong
        have hcap : 0 < cap := Nat.zero_lt_of_lt hinside
        have hleft : items.length - cap + 1 ≤ items.length :=
          Nat.sub_lt (Nat.lt_of_lt_of_le hcap hlong) hcap
        rw [hmore, List.drop_append_of_le_length hleft, ← List.drop_drop, ← hheld]
        rfl
      rw [hlast, List.set_append_right _ _ (Nat.le_refl _), Nat.sub_self, List.set_cons_zero]
      rw [List.length_cons] at hfull
      cases behind with
      | nil =>
        -- The place was the last one, and goes round to the first.
        rw [List.length_nil] at hfull
        rw [hfull, Nat.mod_self, readFrom_zero]
        rfl
      | cons one behind =>
        rw [List.length_cons] at hfull
        have hplace : (since.length + 1) % cap = (since ++ [item]).length := by
          rw [Nat.mod_eq_of_lt (by omega), List.length_append, List.length_singleton]
        have hmoved : since ++ item :: one :: behind = since ++ [item] ++ one :: behind :=
          List.append_cons ..
        rw [hplace, hmoved, readFrom_append, List.append_assoc]
  · rw [List.length_set] at hroom
    exact absurd hfull (Nat.ne_of_lt hroom)

theorem put (h : Round cap items l next) (item : α) :
    Round cap (items ++ [item]) (put cap item l next).1 (put cap item l next).2 := by
  have hlength := h.length
  unfold Cyclic.put
  by_cases hroom : l.length < cap
  · rw [if_pos hroom]
    exact h.put_room item hroom
  · rw [if_neg hroom]
    exact h.put_full item (by omega)

/-- **After any number of items** the list holds the last of them, as many as may be. -/
theorem ofAll (hcap : 0 < cap) (items : List α) :
    Round cap items (putAll cap items).1 (putAll cap items).2 := by
  induction items using List.reverseRecOn with
  | nil => exact ⟨List.drop_nil.symm, hcap, fun _ => rfl⟩
  | append_singleton items item ih =>
    unfold putAll
    rw [List.foldl_append]
    exact ih.put item

end Round

end Cyclic
