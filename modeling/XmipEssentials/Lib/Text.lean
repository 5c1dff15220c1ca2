import Mathlib.Algebra.GroupWithZero.Nat
import Mathlib.Data.Char
import Mathlib.Data.List.DropRight
import Mathlib.Data.List.Infix
import Mathlib.Data.List.Lex

/-!
# Texts as lists of characters

What a program does with its strings — padded numbers, words split at a separator, file names with
an extension, UTF-8 bytes — over `Text`, a list of characters, on which a closed instance is
evaluated by the kernel.

* `parseNat_decimal` — a number reads back from its decimal text.
* `le_of_padded_append_le` — padded numbers stand in their order.
* `fromUtf8_utf8` — a text reads back from its bytes, and a line break among them is one of the
  text's own characters (`mem_utf8`).
* `extension_append` — the extension of a name is what follows its last dot.
* `piece_unique` — a text written between separators is found again where it is the last of its
  kind.
-/

/-- A text, as the characters it is made of. -/
abbrev Text : Type := List Char

/-- Texts that compare as the same are the same. -/
instance : LawfulBEq Text := inferInstanceAs (LawfulBEq (List Char))

namespace Text

/-! ### Numbers -/

/-- `n` in decimal. -/
def decimal (n : Nat) : Text := Nat.toDigits 10 n

/-- `n` in decimal, zeros before it to make at least `width` digits. -/
def padded (width n : Nat) : Text := (decimal n).leftpad width '0'

/-- The number a text of decimal digits says, an optional `+` before them; none where a digit is
missing or another character stands there. -/
def parseNat (t : Text) : Option Nat :=
  let digits := if t.head? = some '+' then t.tail else t
  if digits ≠ [] ∧ digits.all Char.isDigit then some (Nat.ofDigitChars 10 digits 0) else none

theorem decimal_isDigit {n : Nat} {c : Char} (h : c ∈ decimal n) : c.isDigit :=
  Nat.isDigit_of_mem_toDigits (by decide) (by decide) h

theorem decimal_ne_nil (n : Nat) : decimal n ≠ [] := Nat.toDigits_ne_nil

/-- A number's text starts with no sign. -/
theorem decimal_head (n : Nat) : (decimal n).head? ≠ some '+' := by
  intro h
  have hmem := List.mem_of_head? h
  exact absurd (decimal_isDigit hmem) (by decide)

/-- **A number reads back from its decimal text.** -/
theorem parseNat_decimal (n : Nat) : parseNat (decimal n) = some n := by
  have hall : (decimal n).all Char.isDigit := by
    rw [List.all_eq_true]
    intro c
    exact decimal_isDigit
  simp only [parseNat, if_neg (decimal_head n), ne_eq, decimal_ne_nil, not_false_eq_true, hall,
    and_self, if_true]
  exact congrArg some (Nat.ofDigitChars_ten_toDigits)

theorem decimal_injective {m n : Nat} (h : decimal m = decimal n) : m = n := by
  have hm := parseNat_decimal m
  rw [h, parseNat_decimal] at hm
  exact (Option.some.inj hm).symm

theorem padded_isDigit {width n : Nat} {c : Char} (h : c ∈ padded width n) : c.isDigit := by
  rw [padded, List.leftpad, List.mem_append] at h
  rcases h with h | h
  · rw [List.eq_of_mem_replicate h]
    decide
  · exact decimal_isDigit h

/-- The number a padded text says is the number padded. -/
theorem ofDigitChars_padded (width n : Nat) : Nat.ofDigitChars 10 (padded width n) 0 = n := by
  rw [padded, List.leftpad, Nat.ofDigitChars_append, Nat.ofDigitChars_replicate_zero, Nat.mul_zero]
  exact Nat.ofDigitChars_ten_toDigits

theorem padded_injective {width m n : Nat} (h : padded width m = padded width n) : m = n := by
  rw [← ofDigitChars_padded width m, h, ofDigitChars_padded width n]

theorem le_length_padded (width n : Nat) : width ≤ (padded width n).length := by
  rw [padded, List.length_leftpad]
  exact Nat.le_max_left _ _

/-! ### The order of padded numbers -/

theorem toNat_of_isDigit {c : Char} (h : c.isDigit) : 48 ≤ c.toNat ∧ c.toNat ≤ 57 := by
  simp only [Char.isDigit, Bool.and_eq_true, decide_eq_true_eq, ge_iff_le] at h
  exact ⟨h.1, h.2⟩

/-- Digits after a lesser number make a lesser number. -/
theorem ofDigitChars_lt {a b : Text} (ha : ∀ c ∈ a, c.isDigit) (hb : ∀ c ∈ b, c.isDigit)
    (hlength : a.length = b.length) {m n : Nat} (hlt : m < n) :
    Nat.ofDigitChars 10 a m < Nat.ofDigitChars 10 b n := by
  induction a generalizing b m n with
  | nil =>
    obtain rfl := List.length_eq_zero_iff.mp hlength.symm
    exact hlt
  | cons c a ih =>
    cases b with
    | nil => cases hlength
    | cons d b =>
      rw [List.forall_mem_cons] at ha hb
      have hc := toNat_of_isDigit ha.1
      have hd := toNat_of_isDigit hb.1
      have hzero : '0'.toNat = 48 := rfl
      rw [Nat.ofDigitChars_cons, Nat.ofDigitChars_cons]
      exact ih ha.2 hb.2 (Nat.succ_inj.mp hlength) (by omega)

theorem le_cons_cons {c d : Char} {a b : Text} (h : c :: a ≤ d :: b) : c < d ∨ c = d ∧ a ≤ b := by
  rcases le_iff_lt_or_eq.mp h with hlt | heq
  · cases hlt with
    | rel hcd => exact .inl hcd
    | cons hab => exact .inr ⟨rfl, le_of_lt hab⟩
  · cases heq
    exact .inr ⟨rfl, le_rfl⟩

/-- Texts that begin with as many digits each are in the order of the numbers these say. -/
theorem ofDigitChars_le_of_append_le {a b x y : Text} (ha : ∀ c ∈ a, c.isDigit)
    (hb : ∀ c ∈ b, c.isDigit) (hlength : a.length = b.length) (h : a ++ x ≤ b ++ y) (m : Nat) :
    Nat.ofDigitChars 10 a m ≤ Nat.ofDigitChars 10 b m := by
  -- Digit by digit: the first that differs decides.
  induction a generalizing b m with
  | nil =>
    obtain rfl := List.length_eq_zero_iff.mp hlength.symm
    exact le_rfl
  | cons c a ih =>
    cases b with
    | nil => cases hlength
    | cons d b =>
      rw [List.forall_mem_cons] at ha hb
      rw [Nat.ofDigitChars_cons, Nat.ofDigitChars_cons]
      rcases le_cons_cons h with hlt | ⟨rfl, hrest⟩
      · have hc := toNat_of_isDigit ha.1
        have hcd : c.toNat < d.toNat := hlt
        have hzero : '0'.toNat = 48 := rfl
        exact le_of_lt (ofDigitChars_lt ha.2 hb.2 (Nat.succ_inj.mp hlength) (by omega))
      · exact ih ha.2 hb.2 (Nat.succ_inj.mp hlength) hrest _

theorem length_padded {width n : Nat} (hwidth : 0 < width) (h : n < 10 ^ width) :
    (padded width n).length = width := by
  rw [padded, List.length_leftpad]
  exact Nat.max_eq_left ((Nat.length_toDigits_le_iff (by decide) hwidth).mpr h)

/-- **Padded numbers stand in their order**, whatever follows them. -/
theorem le_of_padded_append_le {width m n : Nat} {x y : Text} (hwidth : 0 < width)
    (hm : m < 10 ^ width) (hn : n < 10 ^ width) (h : padded width m ++ x ≤ padded width n ++ y) :
    m ≤ n := by
  have hlength : (padded width m).length = (padded width n).length := by
    rw [length_padded hwidth hm, length_padded hwidth hn]
  have hle := ofDigitChars_le_of_append_le (fun _ => padded_isDigit) (fun _ => padded_isDigit)
    hlength h 0
  rwa [ofDigitChars_padded, ofDigitChars_padded] at hle

/-! ### Digits cut short -/

/-- Digits alone say the number their places do. -/
theorem parseNat_of_isDigit {t : Text} (hne : t ≠ []) (h : ∀ c ∈ t, c.isDigit) :
    parseNat t = some (Nat.ofDigitChars 10 t 0) := by
  have hhead : t.head? ≠ some '+' := by
    intro heq
    exact absurd (h _ (List.mem_of_head? heq)) (by decide)
  unfold parseNat
  rw [if_neg hhead]
  exact if_pos ⟨hne, List.all_eq_true.mpr h⟩

/-- So many digits say no more than their places hold. -/
theorem ofDigitChars_lt_pow {t : Text} (h : ∀ c ∈ t, c.isDigit) (m : Nat) :
    Nat.ofDigitChars 10 t m < (m + 1) * 10 ^ t.length := by
  induction t generalizing m with
  | nil =>
    rw [List.length_nil, Nat.pow_zero, Nat.mul_one]
    exact Nat.lt_succ_self m
  | cons c t ih =>
    rw [List.forall_mem_cons] at h
    have hc := toNat_of_isDigit h.1
    have hzero : '0'.toNat = 48 := rfl
    rw [Nat.ofDigitChars_cons, List.length_cons, Nat.pow_succ, Nat.mul_comm _ 10, ← Nat.mul_assoc]
    refine (ih h.2 _).trans_le (Nat.mul_le_mul_right _ ?_)
    omega

/-- A number's digits cut short say a lesser number. -/
theorem parseNat_cut {n : Nat} {digits : Text} (hne : digits ≠ []) (hcut : digits <+: decimal n)
    (hproper : digits ≠ decimal n) : ∃ m, parseNat digits = some m ∧ m < n := by
  have hdigits : ∀ c ∈ digits, c.isDigit := fun c hc => decimal_isDigit (hcut.subset hc)
  refine ⟨_, parseNat_of_isDigit hne hdigits, ?_⟩
  have hshort : digits.length < (decimal n).length := by
    apply Nat.lt_of_le_of_ne hcut.length_le
    intro heq
    exact hproper (hcut.eq_of_length heq)
  have hlarge : 10 ^ digits.length ≤ n := by
    by_contra hless
    have hfew := (Nat.length_toDigits_le_iff (by decide) (List.length_pos_iff.mpr hne)).mpr
      (Nat.lt_of_not_le hless)
    exact absurd hfew (Nat.not_le_of_lt hshort)
  have hvalue := ofDigitChars_lt_pow hdigits 0
  omega

/-! ### Splitting -/

/-- What stands in joined texts stands in the separator or in one of them. -/
theorem mem_intercalate {α : Type} {c : α} {sep : List α} {l : List (List α)}
    (h : c ∈ sep.intercalate l) : c ∈ sep ∨ ∃ part ∈ l, c ∈ part := by
  induction l with
  | nil => simp at h
  | cons part rest ih =>
    by_cases hrest : rest = []
    · subst hrest
      rw [List.intercalate_singleton] at h
      exact .inr ⟨part, List.mem_cons_self, h⟩
    · rw [List.intercalate_cons_of_ne_nil hrest, List.mem_append, List.mem_append] at h
      rcases h with (h | h) | h
      · exact .inr ⟨part, List.mem_cons_self, h⟩
      · exact .inl h
      · rcases ih h with h | ⟨p, hp, hc⟩
        · exact .inl h
        · exact .inr ⟨p, List.mem_cons_of_mem _ hp, hc⟩

/-- `t` cut at the first `sep` in it. -/
def splitOnce (sep : Text) : Text → Option (Text × Text)
  | [] => if sep = [] then some ([], []) else none
  | c :: t =>
    if sep.isPrefixOf (c :: t) then some ([], (c :: t).drop sep.length)
    else (splitOnce sep t).map fun halves => (c :: halves.1, halves.2)

/-- `t` cut at its last `c`. -/
def rsplitOnce (c : Char) : Text → Option (Text × Text)
  | [] => none
  | d :: t =>
    match rsplitOnce c t with
    | some (before, after) => some (d :: before, after)
    | none => if d = c then some ([], t) else none

/-- A separator is found where what stands before it holds none of its first character. -/
theorem splitOnce_append {c : Char} {sep before after : Text} (h : c ∉ before) :
    splitOnce (c :: sep) (before ++ c :: sep ++ after) = some (before, after) := by
  induction before with
  | nil => simp [splitOnce]
  | cons d before ih =>
    have hd := List.ne_of_not_mem_cons h
    have hbefore := List.not_mem_of_not_mem_cons h
    have hne : (c :: sep).isPrefixOf (d :: (before ++ c :: sep ++ after)) = false := by
      simp [List.isPrefixOf, hd]
    simp only [List.cons_append] at hne ih ⊢
    simp only [splitOnce, hne, Bool.false_eq_true, if_false, ih hbefore, Option.map_some]

/-- A text with no first character of the separator is not cut. -/
theorem splitOnce_none {c : Char} {sep t : Text} (h : c ∉ t) : splitOnce (c :: sep) t = none := by
  induction t with
  | nil => simp [splitOnce]
  | cons d t ih =>
    have hd := List.ne_of_not_mem_cons h
    have ht := List.not_mem_of_not_mem_cons h
    simp [splitOnce, List.isPrefixOf, hd, ih ht]

/-- A text cut at a separator is made again of its halves. -/
theorem splitOnce_eq_append {sep t before after : Text}
    (h : splitOnce sep t = some (before, after)) : t = before ++ sep ++ after := by
  -- Letter by letter, until the separator stands first.
  induction t generalizing before with
  | nil =>
    rw [splitOnce] at h
    split at h
    · next hsep =>
      cases h
      simp [hsep]
    · cases h
  | cons c t ih =>
    rw [splitOnce] at h
    split at h
    · next hprefix =>
      cases h
      obtain ⟨rest, hrest⟩ := List.isPrefixOf_iff_prefix.mp hprefix
      rw [← hrest, List.drop_left, List.nil_append]
    · obtain ⟨⟨before', after'⟩, hsplit, heq⟩ := Option.map_eq_some_iff.mp h
      cases heq
      rw [ih hsplit, List.cons_append, List.cons_append]

/-- What is found in a text is found in it with more behind. -/
theorem splitOnce_append_some {sep t before after : Text}
    (h : splitOnce sep t = some (before, after)) (rest : Text) :
    splitOnce sep (t ++ rest) = some (before, after ++ rest) := by
  -- A separator found in the beginning is found at the same place.
  induction t generalizing before with
  | nil =>
    rw [splitOnce] at h
    split at h
    · next hsep =>
      cases h
      subst hsep
      cases rest with
      | nil => rfl
      | cons c rest => rfl
    · cases h
  | cons c t ih =>
    rw [splitOnce] at h
    rw [List.cons_append, splitOnce]
    split at h
    · next hprefix =>
      cases h
      have hthere := List.isPrefixOf_iff_prefix.mp hprefix
      rw [← List.cons_append,
        if_pos (List.isPrefixOf_iff_prefix.mpr (hthere.trans (List.prefix_append (c :: t) rest))),
        List.drop_append_of_le_length hthere.length_le]
    · next hnot =>
      obtain ⟨⟨before', after'⟩, hsplit, heq⟩ := Option.map_eq_some_iff.mp h
      cases heq
      -- The separator lies whole in what is left of the beginning.
      have hfits : sep.length ≤ t.length := by
        rw [splitOnce_eq_append hsplit, List.length_append, List.length_append]
        omega
      rw [if_neg, ih hsplit]
      · rfl
      · intro hprefix
        refine hnot (List.isPrefixOf_iff_prefix.mpr ?_)
        exact List.prefix_of_prefix_length_le (List.isPrefixOf_iff_prefix.mp hprefix)
          (List.prefix_append (c :: t) rest) (Nat.le_succ_of_le hfits)

/-- A separator does not begin in a text and end behind a character it does not hold. -/
theorem not_prefix_append {sep t rest : Text} {c : Char} (hc : c ∉ sep) (h : ¬sep <+: t) :
    ¬sep <+: t ++ c :: rest := by
  intro hprefix
  rcases List.prefix_or_prefix_of_prefix hprefix (List.prefix_append t (c :: rest)) with hin |
    ⟨tail, rfl⟩
  · exact h hin
  · rw [List.prefix_append_right_inj] at hprefix
    cases tail with
    | nil => exact h (by rw [List.append_nil])
    | cons d tail =>
      obtain ⟨rfl, -⟩ := List.cons_prefix_cons.mp hprefix
      exact hc (List.mem_append_right t List.mem_cons_self)

/-- What is not found in a text is found behind it, where a character in between is none of the
separator's. -/
theorem splitOnce_append_none {sep t : Text} {c : Char} (hc : c ∉ sep) (h : splitOnce sep t = none)
    (rest : Text) :
    splitOnce sep (t ++ c :: rest) = (splitOnce sep rest).map fun halves =>
    (t ++ c :: halves.1, halves.2) := by
  -- A letter that is not in the separator ends every place it could begin at before.
  induction t with
  | nil =>
    have hsep : ¬sep <+: ([] : Text) := by
      intro hnil
      rw [splitOnce, if_pos (List.prefix_nil.mp hnil)] at h
      cases h
    rw [List.nil_append, splitOnce, if_neg]
    · rfl
    · intro hprefix
      exact not_prefix_append hc hsep (List.isPrefixOf_iff_prefix.mp hprefix)
  | cons d t ih =>
    rw [splitOnce] at h
    split at h
    · cases h
    · next hnot =>
      rw [List.cons_append, splitOnce, if_neg, ih (Option.map_eq_none_iff.mp h), Option.map_map]
      · rfl
      · intro hprefix
        refine not_prefix_append hc (fun hin => hnot (List.isPrefixOf_iff_prefix.mpr hin))
          (List.isPrefixOf_iff_prefix.mp hprefix)

theorem rsplitOnce_none {c : Char} {t : Text} (h : c ∉ t) : rsplitOnce c t = none := by
  induction t with
  | nil => rfl
  | cons d t ih =>
    have hd := List.ne_of_not_mem_cons h
    have ht := List.not_mem_of_not_mem_cons h
    simp [rsplitOnce, ih ht, Ne.symm hd]

theorem rsplitOnce_append {c : Char} {before after : Text} (h : c ∉ after) :
    rsplitOnce c (before ++ c :: after) = some (before, after) := by
  induction before with
  | nil => simp [rsplitOnce, rsplitOnce_none h]
  | cons d before ih => simp [rsplitOnce, ih]

/-! ### File names -/

/-- What stands before a file name's extension: the name up to its last dot, a dot that starts the
name not counting. -/
def fileStem (name : Text) : Text :=
  match rsplitOnce '.' name with
  | some ([], _) => name
  | some (before, _) => before
  | none => name

/-- A file name's extension: what follows its last dot, a dot that starts the name not
counting. -/
def extension (name : Text) : Option Text :=
  match rsplitOnce '.' name with
  | some ([], _) => none
  | some (_, after) => some after
  | none => none

/-- The file name with `ext` in place of its extension. -/
def withExtension (name ext : Text) : Text := fileStem name ++ '.' :: ext

theorem extension_append {before ext : Text} (hbefore : before ≠ []) (hext : '.' ∉ ext) :
    extension (before ++ '.' :: ext) = some ext := by
  cases before with
  | nil => exact absurd rfl hbefore
  | cons c before => rw [extension, rsplitOnce_append hext]

theorem withExtension_of_not_mem {name ext : Text} (hname : '.' ∉ name) :
    withExtension name ext = name ++ '.' :: ext := by
  rw [withExtension, fileStem, rsplitOnce_none hname]

/-! ### Case and white space -/

/-- Whether two texts are equal, their ASCII letters' case aside. -/
def eqIgnoreAsciiCase (a b : Text) : Bool := a.map Char.toLower == b.map Char.toLower

@[simp] theorem eqIgnoreAsciiCase_self (a : Text) : eqIgnoreAsciiCase a a = true := by
  simp [eqIgnoreAsciiCase]

theorem eqIgnoreAsciiCase_iff {a b : Text} :
    eqIgnoreAsciiCase a b = true ↔ a.map Char.toLower = b.map Char.toLower := by
  simp [eqIgnoreAsciiCase]

/-- Unicode's white space. -/
def isWhitespace (c : Char) : Bool :=
  (0x09 ≤ c.toNat && c.toNat ≤ 0x0d) || c.toNat == 0x20 || c.toNat == 0x85 || c.toNat == 0xa0 ||
    c.toNat == 0x1680 || (0x2000 ≤ c.toNat && c.toNat ≤ 0x200a) || c.toNat == 0x2028 ||
    c.toNat == 0x2029 || c.toNat == 0x202f || c.toNat == 0x205f || c.toNat == 0x3000

/-- The text without the white space at its two ends. -/
def trim (t : Text) : Text := (t.dropWhile isWhitespace).rdropWhile isWhitespace

theorem trim_eq_self {t : Text} (h : ∀ c ∈ t, isWhitespace c = false) : trim t = t := by
  have hdrop : t.dropWhile isWhitespace = t := by
    cases t with
    | nil => rfl
    | cons c t => simp [List.dropWhile, h c List.mem_cons_self]
  rw [trim, hdrop, List.rdropWhile_eq_self_iff]
  intro hne
  simp [h _ (List.getLast_mem hne)]

/-- The first word of a text, words being what white space separates. -/
def firstWord (t : Text) : Option Text :=
  match (t.dropWhile isWhitespace).takeWhile (fun c => !isWhitespace c) with
  | [] => none
  | word => some word

theorem isWhitespace_of_isAlphanum {c : Char} (h : c.isAlphanum) : isWhitespace c = false := by
  -- Letters and digits are of three ranges, and no white space is in them.
  have hrange : (65 ≤ c.toNat ∧ c.toNat ≤ 90) ∨ (97 ≤ c.toNat ∧ c.toNat ≤ 122) ∨
      (48 ≤ c.toNat ∧ c.toNat ≤ 57) := by
    have hletter {low high : UInt32} (h : c.val ≥ low ∧ c.val ≤ high) :
        low.toNat ≤ c.toNat ∧ c.toNat ≤ high.toNat :=
      ⟨UInt32.le_iff_toNat_le.mp h.1, UInt32.le_iff_toNat_le.mp h.2⟩
    have hand {low high : UInt32} (h : (decide (c.val ≥ low) && decide (c.val ≤ high)) = true) :
        c.val ≥ low ∧ c.val ≤ high := by
      rwa [Bool.and_eq_true, decide_eq_true_iff, decide_eq_true_iff] at h
    change (c.isUpper || c.isLower || c.isDigit) = true at h
    rw [Bool.or_eq_true, Bool.or_eq_true] at h
    rcases h with (h | h) | h
    · exact .inl (hletter (of_decide_eq_true h))
    · exact .inr (.inl (hletter (hand h)))
    · exact .inr (.inr (hletter (hand h)))
  simp only [isWhitespace, Bool.or_eq_false_iff, Bool.and_eq_false_iff, beq_eq_false_iff_ne,
    decide_eq_false_iff_not]
  omega

/-- Lowering a letter keeps it one, and nothing else becomes one. -/
theorem isAlphanum_toLower (c : Char) : c.toLower.isAlphanum = c.isAlphanum := by
  -- A capital letter becomes a small one; any other character stays.
  by_cases h : c.val ≥ 'A'.val ∧ c.val ≤ 'Z'.val
  · have hupper : c.isUpper = true := decide_eq_true h
    have hlower : c.toLower.isLower = true := by
      have hval : c.toLower.val = c.val + 32 := congrArg Char.val (dif_pos h)
      have hlow : 65 ≤ c.val.toNat := UInt32.le_iff_toNat_le.mp h.1
      have hhigh : c.val.toNat ≤ 90 := UInt32.le_iff_toNat_le.mp h.2
      have hadd : (c.val + 32).toNat = c.val.toNat + 32 := by
        rw [UInt32.toNat_add]
        show (c.val.toNat + 32) % 2 ^ 32 = _
        omega
      show (decide (c.toLower.val ≥ 'a'.val) && decide (c.toLower.val ≤ 'z'.val)) = true
      rw [hval, Bool.and_eq_true, decide_eq_true_iff, decide_eq_true_iff]
      constructor
      · apply UInt32.le_iff_toNat_le.mpr
        rw [hadd]
        show 97 ≤ _
        omega
      · apply UInt32.le_iff_toNat_le.mpr
        rw [hadd]
        show _ ≤ 122
        omega
    show (c.toLower.isUpper || c.toLower.isLower || c.toLower.isDigit) =
      (c.isUpper || c.isLower || c.isDigit)
    rw [hupper, hlower, Bool.or_true, Bool.true_or, Bool.true_or, Bool.true_or]
  · have hsame : c.toLower = c := dif_neg h
    rw [hsame]

/-- What is no letter and no digit has no case. -/
theorem toLower_eq_self {c : Char} (h : c.isAlphanum = false) : c.toLower = c := by
  apply dif_neg
  intro hrange
  have hupper : c.isUpper = true := decide_eq_true hrange
  change (c.isUpper || c.isLower || c.isDigit) = false at h
  rw [hupper] at h
  cases h

/-- The first word of a number and what white space keeps apart from it is the number. -/
theorem firstWord_decimal {n : Nat} {t : Text} (h : ∀ c ∈ t.head?, isWhitespace c) :
    firstWord (decimal n ++ t) = some (decimal n) := by
  -- Digits are no white space, so the word begins at once and ends where they do.
  have hword : ∀ c ∈ decimal n, (!isWhitespace c) = true := by
    intro c hc
    have halnum : c.isAlphanum := by simp [Char.isAlphanum, decimal_isDigit hc]
    simp [isWhitespace_of_isAlphanum halnum]
  have hdrop : (decimal n ++ t).dropWhile isWhitespace = decimal n ++ t := by
    cases hn : decimal n with
    | nil => exact absurd hn (decimal_ne_nil n)
    | cons c digits =>
      have hc := hword c (by simp [hn])
      simp only [Bool.not_eq_true'] at hc
      simp [hc]
  have htake : t.takeWhile (fun c => !isWhitespace c) = [] := by
    cases t with
    | nil => rfl
    | cons c t => simp [h c (by simp)]
  rw [firstWord, hdrop, List.takeWhile_append_of_pos hword, htake, List.append_nil]
  cases hn : decimal n with
  | nil => exact absurd hn (decimal_ne_nil n)
  | cons c digits => rfl

/-! ### UTF-8 -/

/-- A text's bytes. -/
def utf8 (t : Text) : List UInt8 := t.flatMap String.utf8EncodeChar

/-- The text that bytes say, where they are UTF-8. -/
def fromUtf8 (bytes : List UInt8) : Option Text := bytes.toByteArray.utf8Decode?.map Array.toList

/-- **A text reads back from its bytes.** -/
theorem fromUtf8_utf8 (t : Text) : fromUtf8 (utf8 t) = some t := by
  have h : (utf8 t).toByteArray.utf8Decode? = some t.toArray := List.utf8Decode?_utf8Encode
  rw [fromUtf8, h]
  simp

theorem utf8_append (a b : Text) : utf8 (a ++ b) = utf8 a ++ utf8 b := List.flatMap_append

/-- A line break among a character's bytes is the character. -/
theorem newline_mem_utf8EncodeChar {c : Char} (h : (10 : UInt8) ∈ String.utf8EncodeChar c) :
    c = '\n' := by
  have small : ∀ v : Nat, v ≤ 127 → (10 : UInt8) = UInt8.ofNat v → v = 10 := by
    intro v hv he
    have := congrArg UInt8.toNat he
    simp at this
    omega
  have large : ∀ v k : Nat, 128 ≤ k → v + k ≤ 255 → (10 : UInt8) ≠ UInt8.ofNat (v + k) := by
    intro v k hk hv he
    have := congrArg UInt8.toNat he
    simp at this
    omega
  have m2 := Nat.mod_lt (c.val.toNat / 64) (show 0 < 32 by decide)
  have m3 := Nat.mod_lt (c.val.toNat / 4096) (show 0 < 16 by decide)
  have m4 := Nat.mod_lt (c.val.toNat / 262144) (show 0 < 8 by decide)
  have l1 := Nat.mod_lt c.val.toNat (show 0 < 64 by decide)
  have l2 := Nat.mod_lt (c.val.toNat / 64) (show 0 < 64 by decide)
  have l3 := Nat.mod_lt (c.val.toNat / 4096) (show 0 < 64 by decide)
  -- Only the one-byte encoding has a byte below 128.
  simp only [String.utf8EncodeChar] at h
  split_ifs at h with h1 h2 h3
  · have hv := small _ h1 (List.mem_singleton.mp h)
    exact Char.ext (UInt32.toNat_inj.mp hv)
  all_goals
    apply absurd h
    simp only [List.mem_cons, List.not_mem_nil, or_false, not_or]
    and_intros
    all_goals exact large _ _ (by omega) (by omega)

/-- **A line break among a text's bytes is one of its characters.** -/
theorem mem_utf8 {t : Text} (h : (10 : UInt8) ∈ utf8 t) : '\n' ∈ t := by
  obtain ⟨c, hc, hb⟩ := List.mem_flatMap.mp h
  rwa [← newline_mem_utf8EncodeChar hb]

/-! ### Pieces between separators -/

/-- The piece between the first two of a character is read off again. -/
theorem takeWhile_piece {c : Char} {before piece : Text} (hpiece : c ∉ piece) (after : Text) :
    ((before ++ c :: piece ++ c :: after).drop (before.length + 1)).takeWhile (· ≠ c) = piece := by
  have hplain : ∀ d ∈ piece, decide (d ≠ c) = true := by
    intro d hd
    rw [decide_eq_true_iff]
    exact ne_of_mem_of_not_mem hd hpiece
  have hbefore : before ++ c :: piece ++ c :: after = (before ++ [c]) ++ (piece ++ c :: after) := by
    simp
  have hlength : before.length + 1 = (before ++ [c]).length := by simp
  rw [hbefore, hlength, List.drop_left, List.takeWhile_append_of_pos hplain]
  simp

/-- The last piece of a kind stands in one place: what is before it, it, and what is after it are
each the same in two equal texts. -/
theorem piece_unique {α : Type} {P : α → Prop} {x y : α} {before before' after after' : List α}
    (hx : P x) (hy : P y) (hafter : ∀ a ∈ after, ¬P a) (hafter' : ∀ a ∈ after', ¬P a)
    (h : before ++ x :: after = before' ++ y :: after') :
    before = before' ∧ x = y ∧ after = after' := by
  rcases List.append_eq_append_iff.mp h with ⟨mid, rfl, hmid⟩ | ⟨mid, rfl, hmid⟩
  · cases mid with
    | nil =>
      obtain ⟨rfl, rfl⟩ := List.cons.inj hmid
      exact ⟨(List.append_nil _).symm, rfl, rfl⟩
    | cons a mid =>
      -- The second piece would stand after the first.
      obtain ⟨rfl, rfl⟩ := List.cons.inj hmid
      exact absurd hy (hafter y (by simp))
  · cases mid with
    | nil =>
      obtain ⟨rfl, rfl⟩ := List.cons.inj hmid
      exact ⟨List.append_nil _, rfl, rfl⟩
    | cons a mid =>
      obtain ⟨rfl, rfl⟩ := List.cons.inj hmid
      exact absurd hx (hafter' x (by simp))

/-- A text is made again of its pieces. -/
theorem splitOn_injective {c : Char} {a b : Text} (h : a.splitOn c = b.splitOn c) : a = b := by
  have ha : [c].intercalate (a.splitOn c) = a := List.intercalate_splitOn c
  rw [← ha, h, List.intercalate_splitOn]

end Text
