import XmipEssentials.Lib.Text

/-!
# Quoted text

A text between quotes, with each quote in it doubled (`quoted`), and the reader that undoes it
(`unquote`): it reads one quoted text back and returns what follows, where no third quote does. A
mark without a quote in it is found in what is written of a text just where it is found in the text
(`splitOnce_doubled`), and so is how far the text goes on in characters the quote is not one of
(`takeWhile_doubled`).
-/

namespace Quoting

open Text

/-- The text with each quote in it doubled. -/
def doubled (q : Char) : Text → Text
  | [] => []
  | c :: t => if c = q then q :: q :: doubled q t else c :: doubled q t

/-- The text between quotes. -/
def quoted (q : Char) (t : Text) : Text := q :: (doubled q t ++ [q])

/-- Behind an opening quote: the text up to the closing one, and what follows it. -/
def unquoteRest (q : Char) : Text → Option (Text × Text)
  | [] => none
  | [c] => if c = q then some ([], []) else none
  | c :: d :: t =>
    if c = q then
      if d = q then (unquoteRest q t).map fun read => (q :: read.1, read.2) else some ([], d :: t)
    else (unquoteRest q (d :: t)).map fun read => (c :: read.1, read.2)

/-- The text between the quotes at the head of another, and what follows it. -/
def unquote (q : Char) : Text → Option (Text × Text)
  | [] => none
  | c :: t => if c = q then unquoteRest q t else none

variable {q : Char} {t : Text}

@[simp] theorem doubled_nil : doubled q [] = [] := rfl

theorem doubled_cons_self : doubled q (q :: t) = q :: q :: doubled q t := if_pos rfl

theorem doubled_cons_of_ne {c : Char} (h : c ≠ q) : doubled q (c :: t) = c :: doubled q t :=
  if_neg h

theorem doubled_append (s t : Text) : doubled q (s ++ t) = doubled q s ++ doubled q t := by
  induction s with
  | nil => rfl
  | cons c s ih =>
    by_cases hc : c = q
    · rw [hc, List.cons_append, doubled_cons_self, doubled_cons_self, ih]
      rfl
    · rw [List.cons_append, doubled_cons_of_ne hc, doubled_cons_of_ne hc, ih]
      rfl

theorem doubled_of_not_mem {s : Text} (h : q ∉ s) : doubled q s = s := by
  induction s with
  | nil => rfl
  | cons c s ih =>
    rw [doubled_cons_of_ne (List.ne_of_not_mem_cons h).symm, ih (List.not_mem_of_not_mem_cons h)]

/-! ### Read back -/

theorem unquoteRest_doubled {rest : Text} (h : ¬[q] <+: rest) :
    unquoteRest q (doubled q t ++ q :: rest) = some (t, rest) := by
  induction t with
  | nil =>
    cases rest with
    | nil => exact if_pos rfl
    | cons d rest =>
      have hd : d ≠ q := by
        rintro rfl
        exact h (List.prefix_append [d] rest)
      rw [doubled_nil, List.nil_append, unquoteRest, if_pos rfl, if_neg hd]
  | cons c t ih =>
    by_cases hc : c = q
    · rw [hc, doubled_cons_self, List.cons_append, List.cons_append, unquoteRest, if_pos rfl,
        if_pos rfl, ih]
      rfl
    · rw [doubled_cons_of_ne hc, List.cons_append]
      -- Something follows, as the closing quote does.
      cases hbehind : doubled q t ++ q :: rest with
      | nil => exact absurd hbehind (List.append_ne_nil_of_right_ne_nil _ (List.cons_ne_nil q rest))
      | cons d behind =>
        rw [unquoteRest, if_neg hc, ← hbehind, ih]
        rfl

/-- **One quoted text is read back**, where what follows does not begin with a quote. -/
theorem unquote_quoted {rest : Text} (t : Text) (h : ¬[q] <+: rest) :
    unquote q (quoted q t ++ rest) = some (t, rest) := by
  rw [quoted, List.cons_append, List.append_assoc, unquote, if_pos rfl]
  exact unquoteRest_doubled h

theorem length_unquoteRest {read after : Text} (h : unquoteRest q t = some (read, after)) :
    after.length < t.length := by
  -- Quote by quote: a doubled one is read on from, a single one ends the reading.
  induction t using unquoteRest.induct (q := q) generalizing read with
  | case1 => cases h
  | case2 =>
    rw [unquoteRest, if_pos rfl] at h
    cases h
    exact Nat.zero_lt_one
  | case3 c hc =>
    rw [unquoteRest, if_neg hc] at h
    cases h
  | case4 t ih =>
    rw [unquoteRest, if_pos rfl, if_pos rfl] at h
    obtain ⟨⟨read', after'⟩, hread, heq⟩ := Option.map_eq_some_iff.mp h
    cases heq
    exact (ih hread).trans (Nat.lt_succ_of_lt (Nat.lt_succ_self _))
  | case5 d t hd =>
    rw [unquoteRest, if_pos rfl, if_neg hd] at h
    cases h
    exact Nat.lt_succ_self _
  | case6 c d t hc ih =>
    rw [unquoteRest, if_neg hc] at h
    obtain ⟨⟨read', after'⟩, hread, heq⟩ := Option.map_eq_some_iff.mp h
    cases heq
    exact (ih hread).trans (Nat.lt_succ_self _)

theorem length_unquote {read after : Text} (h : unquote q t = some (read, after)) :
    after.length < t.length := by
  cases t with
  | nil => cases h
  | cons c t =>
    rw [unquote] at h
    split at h
    · exact (length_unquoteRest h).trans (Nat.lt_succ_self _)
    · cases h

/-! ### What is found in what is written -/

theorem prefix_doubled {sep : Text} (hq : q ∉ sep) : sep <+: doubled q t ↔ sep <+: t := by
  induction sep generalizing t with
  | nil => exact iff_of_true List.nil_prefix List.nil_prefix
  | cons a sep ih =>
    have ha := List.ne_of_not_mem_cons hq
    cases t with
    | nil => rfl
    | cons c t =>
      by_cases hc : c = q
      · rw [hc, doubled_cons_self, List.cons_prefix_cons, List.cons_prefix_cons]
        exact iff_of_false (fun h => ha h.1.symm) fun h => ha h.1.symm
      · rw [doubled_cons_of_ne hc, List.cons_prefix_cons, List.cons_prefix_cons,
          ih (List.not_mem_of_not_mem_cons hq)]

/-- A mark is found in what is written of a text just where it is found in the text. -/
theorem splitOnce_doubled {sep : Text} (hq : q ∉ sep) (hsep : sep ≠ []) :
    splitOnce sep (doubled q t) = (splitOnce sep t).map fun halves =>
    (doubled q halves.1, doubled q halves.2) := by
  -- What is cut at does not begin with a quote, so no cut falls inside a pair of them.
  have hquote (u : Text) : ¬sep.isPrefixOf (q :: u) := by
    intro hprefix
    cases sep with
    | nil => exact hsep rfl
    | cons a sep =>
      obtain ⟨rfl, -⟩ := List.cons_prefix_cons.mp (List.isPrefixOf_iff_prefix.mp hprefix)
      exact hq List.mem_cons_self
  induction t with
  | nil => rw [doubled_nil, splitOnce, if_neg hsep, Option.map_none]
  | cons c t ih =>
    by_cases hc : c = q
    · rw [hc, doubled_cons_self, splitOnce, if_neg (hquote _), splitOnce, if_neg (hquote _), ih,
        splitOnce, if_neg (hquote _), Option.map_map, Option.map_map, Option.map_map]
      refine congrArg (fun f => Option.map f _) (funext fun halves => ?_)
      exact congrArg (·, doubled q halves.2) doubled_cons_self.symm
    · have hsame := prefix_doubled (t := c :: t) hq
      rw [doubled_cons_of_ne hc] at hsame ⊢
      rw [splitOnce, splitOnce]
      by_cases hprefix : sep <+: c :: t
      · rw [if_pos (List.isPrefixOf_iff_prefix.mpr (hsame.mpr hprefix)),
          if_pos (List.isPrefixOf_iff_prefix.mpr hprefix)]
        obtain ⟨rest, hrest⟩ := hprefix
        rw [← doubled_cons_of_ne hc, ← hrest, doubled_append, doubled_of_not_mem hq, List.drop_left,
          List.drop_left]
        rfl
      · rw [if_neg fun h => hprefix (hsame.mp (List.isPrefixOf_iff_prefix.mp h)),
          if_neg fun h => hprefix (List.isPrefixOf_iff_prefix.mp h), ih, Option.map_map,
          Option.map_map]
        refine congrArg (fun f => Option.map f _) (funext fun halves => ?_)
        exact congrArg (·, doubled q halves.2) (doubled_cons_of_ne hc).symm

/-- How far a text goes on in characters the quote is not one of. -/
theorem takeWhile_doubled {p : Char → Bool} (hp : p q = false) (rest : Text) :
    (doubled q t ++ q :: rest).takeWhile p = t.takeWhile p := by
  have hquote := Bool.eq_false_iff.mp hp
  induction t with
  | nil => exact List.takeWhile_cons_of_neg hquote
  | cons c t ih =>
    by_cases hc : c = q
    · rw [hc, doubled_cons_self, List.cons_append, List.takeWhile_cons_of_neg hquote,
        List.takeWhile_cons_of_neg hquote]
    · rw [doubled_cons_of_ne hc, List.cons_append, List.takeWhile_cons, List.takeWhile_cons, ih]

end Quoting
