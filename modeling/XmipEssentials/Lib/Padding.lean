import Mathlib.Data.Nat.Find
import Mathlib.Data.List.Basic

/-!
# Padding to a size

A body grows by one unit after another until its size, with what is still to be written counted in,
reaches what is asked (`Units.pad`). Every unit adds to the size, so it ends, and with the fewest
units that reach it (`Units.pad_of_fewest`). A document is a head so padded and a tail that may say
how many units there were (`Shape.exists_fill`), and is as large as asked where its tail is no
smaller than what was counted in for it (`Shape.le_size_fill`). Where each unit has a separator
before it, the whole is pieces joined (`Joined.row`).
-/

namespace Padding

variable {α : Type}

/-! ### Units -/

/-- The units a body grows by, and how large a body is: none of them is for nothing. -/
structure Units (α : Type) where
  unit : Nat → List α
  size : List α → Nat
  size_append : ∀ a b, size (a ++ b) = size a + size b
  size_pos : ∀ number, 0 < size (unit number)

namespace Units

/-- A body grown until, with `seen` counted in, it reaches a size; and the number the next unit
would have. -/
def pad (u : Units α) (seen target : Nat) (body : List α) (number : Nat) : List α × Nat :=
  if u.size body + seen < target then u.pad seen target (body ++ u.unit number) (number + 1)
    else (body, number)
termination_by target - u.size body
decreasing_by
  have hgrows := u.size_pos number
  rw [u.size_append]
  omega

/-- So many units, from one on. -/
def row (u : Units α) (first count : Nat) : List α := (List.range' first count).flatMap u.unit

theorem row_zero (u : Units α) (first : Nat) : u.row first 0 = [] := rfl

theorem row_succ (u : Units α) (first count : Nat) :
    u.row first (count + 1) = u.unit first ++ u.row (first + 1) count := by
  rw [row, List.range'_succ, List.flatMap_cons, row]

/-- A row of units that are all alike. -/
theorem row_const {u : Units α} {piece : List α} (h : ∀ number, u.unit number = piece)
    (first count : Nat) :
    u.row first count = (List.replicate count piece).flatten := by
  induction count generalizing first with
  | zero => rfl
  | succ count ih => rw [row_succ, h, ih, List.replicate_succ, List.flatten_cons]

/-- So many units reach the size. -/
def Reaches (u : Units α) (seen target : Nat) (body : List α) (first count : Nat) : Prop :=
  target ≤ u.size (body ++ u.row first count) + seen

/-- No fewer units reach the size. -/
def Fewest (u : Units α) (seen target : Nat) (body : List α) (first count : Nat) : Prop :=
  u.Reaches seen target body first count ∧ ∀ fewer < count, ¬u.Reaches seen target body first fewer

instance (u : Units α) (seen target : Nat) (body : List α) (first count : Nat) :
    Decidable (u.Reaches seen target body first count) := inferInstanceAs (Decidable (_ ≤ _))

instance (u : Units α) (seen target : Nat) (body : List α) (first count : Nat) :
    Decidable (u.Fewest seen target body first count) := inferInstanceAs (Decidable (_ ∧ _))

variable {u : Units α} {seen target : Nat} {body : List α} {first count : Nat}

theorem le_size_row : count ≤ u.size (u.row first count) := by
  induction count generalizing first with
  | zero => exact Nat.zero_le _
  | succ count ih =>
    have hunit := u.size_pos first
    have hrest : count ≤ u.size (u.row (first + 1) count) := ih
    rw [row_succ, u.size_append]
    omega

/-- **Some number of units is the fewest that reach a size.** -/
theorem exists_fewest (u : Units α) (seen target : Nat) (body : List α) (first : Nat) :
    ∃ count, u.Fewest seen target body first count := by
  have hreached : ∃ count, u.Reaches seen target body first count := by
    refine ⟨target, ?_⟩
    have hrow : target ≤ u.size (u.row first target) := le_size_row
    rw [Reaches, u.size_append]
    omega
  exact ⟨Nat.find hreached, Nat.find_spec hreached, fun _ => Nat.find_min hreached⟩

/-- **Padding stops at the fewest units that reach the size.** -/
theorem pad_of_fewest (h : u.Fewest seen target body first count) :
    u.pad seen target body first = (body ++ u.row first count, first + count) := by
  induction count generalizing body first with
  | zero =>
    have hreached := h.1
    rw [Reaches, row_zero, List.append_nil] at hreached
    rw [pad, if_neg (Nat.not_lt.mpr hreached), row_zero, List.append_nil]
    rfl
  | succ count ih =>
    -- Nothing of the row reaches the size yet, and the rest of it is the row of the body one unit
    -- longer.
    have hshort := h.2 0 (Nat.succ_pos count)
    rw [Reaches, row_zero, List.append_nil] at hshort
    have hrest : u.Fewest seen target (body ++ u.unit first) (first + 1) count := by
      have hshift : ∀ n, u.Reaches seen target (body ++ u.unit first) (first + 1) n ↔
          u.Reaches seen target body first (n + 1) := by
        intro n
        rw [Reaches, Reaches, row_succ, List.append_assoc]
      exact ⟨(hshift count).mpr h.1, fun fewer hlt hreaches =>
        h.2 (fewer + 1) (Nat.succ_lt_succ hlt) ((hshift fewer).mp hreaches)⟩
    rw [pad, if_pos (Nat.lt_of_not_le hshort), ih hrest, row_succ, List.append_assoc, Nat.add_assoc,
      Nat.add_comm 1]

end Units

/-! ### Shapes -/

/-- A document of a shape: a head, units from a first number on, and a tail that is written when
`seen` counted in reaches the size. -/
structure Shape (α : Type) where
  head : List α
  units : Units α
  first : Nat
  seen : Nat
  tail : Nat → List α

namespace Shape

/-- The document of a shape grown to a size. -/
def fill (s : Shape α) (target : Nat) : List α :=
  let (body, number) := s.units.pad s.seen target s.head s.first
  body ++ s.tail number

/-- The document of a shape with so many units. -/
def document (s : Shape α) (count : Nat) : List α :=
  s.head ++ s.units.row s.first count ++ s.tail (s.first + count)

/-- So many units are the fewest a shape reaches a size with. -/
abbrev Fewest (s : Shape α) (target count : Nat) : Prop :=
  s.units.Fewest s.seen target s.head s.first count

variable {s : Shape α} {target count : Nat}

theorem fill_of_fewest (h : s.Fewest target count) : s.fill target = s.document count := by
  rw [fill, Units.pad_of_fewest h]
  rfl

theorem exists_fill (s : Shape α) (target : Nat) :
    ∃ count, s.Fewest target count ∧ s.fill target = s.document count := by
  obtain ⟨count, h⟩ := s.units.exists_fewest s.seen target s.head s.first
  exact ⟨count, h, fill_of_fewest h⟩

/-- **A document is as large as asked**, where its tail is no smaller than what was counted in. -/
theorem le_size_fill (htail : ∀ number, s.seen ≤ s.units.size (s.tail number)) (target : Nat) :
    target ≤ s.units.size (s.fill target) := by
  obtain ⟨count, ⟨hreached, -⟩, hfill⟩ := s.exists_fill target
  have hlarge := htail (s.first + count)
  rw [hfill, document, s.units.size_append]
  calc target
      ≤ s.units.size (s.head ++ s.units.row s.first count) + s.seen := hreached
    _ ≤ s.units.size (s.head ++ s.units.row s.first count) +
          s.units.size (s.tail (s.first + count)) := Nat.add_le_add_left hlarge _

end Shape

/-! ### Pieces joined -/

/-- Pieces with a separator between each two and none at either end: no piece is empty or holds any
of the separator. -/
structure Joined (sep : List α) (pieces : List (List α)) (t : List α) : Prop where
  eq : t = sep.intercalate pieces
  plain : ∀ piece ∈ pieces, piece ≠ [] ∧ ∀ c ∈ sep, c ∉ piece

theorem intercalate_concat (sep piece : List α) {pieces : List (List α)} (h : pieces ≠ []) :
    sep.intercalate (pieces ++ [piece]) = sep.intercalate pieces ++ (sep ++ piece) := by
  induction pieces with
  | nil => exact absurd rfl h
  | cons lead pieces ih =>
    cases pieces with
    | nil =>
      rw [List.singleton_append, List.intercalate_cons_cons, List.intercalate_singleton,
        List.intercalate_singleton, List.append_assoc]
    | cons next pieces =>
      rw [List.cons_append, List.cons_append, List.intercalate_cons_cons, ← List.cons_append,
        ih (List.cons_ne_nil _ _), List.intercalate_cons_cons, List.append_assoc, List.append_assoc,
        List.append_assoc]

namespace Joined

variable {sep t : List α} {pieces : List (List α)}

theorem nil (sep : List α) : Joined sep [] [] := ⟨rfl, fun _ h => absurd h List.not_mem_nil⟩

theorem singleton {piece : List α} (h : piece ≠ [] ∧ ∀ c ∈ sep, c ∉ piece) :
    Joined sep [piece] piece :=
  ⟨List.intercalate_singleton.symm, List.forall_mem_singleton.mpr h⟩

/-- One more piece, with a separator before it. -/
theorem concat {piece : List α} (h : Joined sep pieces t) (hne : pieces ≠ [])
    (hpiece : piece ≠ [] ∧ ∀ c ∈ sep, c ∉ piece) :
    Joined sep (pieces ++ [piece]) (t ++ (sep ++ piece)) := by
  refine ⟨by rw [intercalate_concat sep piece hne, ← h.eq], fun other hother => ?_⟩
  rcases List.mem_append.mp hother with hmem | hlast
  · exact h.plain other hmem
  · rw [List.mem_singleton.mp hlast]
    exact hpiece

/-- **A body padded with pieces, each with a separator before it**, is its own and those joined. -/
theorem row {piece : Nat → List α} (h : Joined sep pieces t) (hne : pieces ≠ [])
    (hpiece : ∀ number, piece number ≠ [] ∧ ∀ c ∈ sep, c ∉ piece number) (first count : Nat) :
    Joined sep (pieces ++ (List.range' first count).map piece)
      (t ++ (List.range' first count).flatMap fun number => sep ++ piece number) := by
  induction count generalizing t pieces first with
  | zero =>
    rw [List.range'_zero, List.map_nil, List.flatMap_nil, List.append_nil, List.append_nil]
    exact h
  | succ count ih =>
    have hmore : pieces ++ [piece first] ≠ [] := List.append_ne_nil_of_left_ne_nil hne _
    have hnext := ih (h.concat hne (hpiece first)) hmore (first + 1)
    rw [List.range'_succ, List.map_cons, List.flatMap_cons]
    rwa [List.append_assoc, List.singleton_append, List.append_assoc] at hnext

end Joined

end Padding
