import Mathlib.Data.Nat.Count
import Mathlib.Data.UInt

/-!
# Words mixed without loss

A hash that xors bytes into a 64-bit word and multiplies by an odd constant loses nothing of the
word it began with: each step can be undone, and so can any number of them (`bijective_mixed`). So
over all words each remainder comes up as often as among the numbers below `2 ^ 64`
(`count_of_bijective`), which is counted in whole rounds of the divisor and what is left
(`count_mod_lt`).
-/

namespace Mixing

/-! ### One step -/

/-- A byte mixed into a word. -/
def mix (prime word : UInt64) (byte : UInt8) : UInt64 := (word ^^^ byte.toUInt64) * prime

/-- Bytes mixed into a word, one after another. -/
def mixed (prime : UInt64) (bytes : List UInt8) (word : UInt64) : UInt64 :=
  bytes.foldl (mix prime) word

/-- A factor that another undoes. -/
theorem bijective_mul {prime inverse : UInt64} (h : prime * inverse = 1) :
    Function.Bijective fun word : UInt64 => word * prime := by
  have hback : inverse * prime = 1 := (UInt64.mul_comm inverse prime).trans h
  refine ⟨Function.LeftInverse.injective (g := (· * inverse)) fun word => ?_,
    Function.RightInverse.surjective (g := (· * inverse)) fun word => ?_⟩
  · change word * prime * inverse = word
    rw [UInt64.mul_assoc, h, UInt64.mul_one]
  · change word * inverse * prime = word
    rw [UInt64.mul_assoc, hback, UInt64.mul_one]

theorem bijective_xor (other : UInt64) :
    Function.Bijective fun word : UInt64 => word ^^^ other := by
  have htwice : Function.Involutive fun word : UInt64 => word ^^^ other := by
    intro word
    change word ^^^ other ^^^ other = word
    rw [UInt64.xor_assoc, UInt64.xor_self, UInt64.xor_zero]
  exact htwice.bijective

variable {prime inverse : UInt64}

theorem bijective_mix (h : prime * inverse = 1) (byte : UInt8) :
    Function.Bijective fun word => mix prime word byte :=
  (bijective_mul h).comp (bijective_xor byte.toUInt64)

/-- **Any bytes mixed in lose nothing of the word.** -/
theorem bijective_mixed (h : prime * inverse = 1) (bytes : List UInt8) :
    Function.Bijective (mixed prime bytes) := by
  induction bytes with
  | nil => exact Function.bijective_id
  | cons byte bytes ih => exact ih.comp (bijective_mix h byte)

/-! ### How often a remainder comes up -/

/-- The numbers below `n` whose remainder is below `rate`: `rate` in each whole round, and the
rest. -/
theorem count_mod_lt {divisor rate : Nat} (hdivisor : 0 < divisor) (hrate : rate ≤ divisor)
    (n : Nat) :
    Nat.count (fun k => k % divisor < rate) n = rate * (n / divisor) + min rate (n % divisor) := by
  induction n with
  | zero => rw [Nat.count_zero, Nat.zero_div, Nat.zero_mod, Nat.mul_zero, Nat.min_zero]
  | succ n ih =>
    have hlt : n % divisor < divisor := Nat.mod_lt n hdivisor
    have hsplit : divisor * (n / divisor) + n % divisor = n := Nat.div_add_mod n divisor
    rw [Nat.count_succ, ih]
    -- within a round: one number more of the round begun
    rcases Nat.lt_or_ge (n % divisor + 1) divisor with hwithin | hend
    · have hnext : n + 1 = divisor * (n / divisor) + (n % divisor + 1) := by omega
      have hdiv : (n + 1) / divisor = n / divisor := by
        rw [hnext, Nat.mul_add_div hdivisor, Nat.div_eq_of_lt hwithin, Nat.add_zero]
      have hmod : (n + 1) % divisor = n % divisor + 1 := by
        rw [hnext, Nat.mul_add_mod, Nat.mod_eq_of_lt hwithin]
      rw [hdiv, hmod]
      split_ifs <;> omega
    · -- The last number of a round.
      have hnext : n + 1 = divisor * (n / divisor + 1) := by rw [Nat.mul_succ]; omega
      have hdiv : (n + 1) / divisor = n / divisor + 1 := by
        rw [hnext, Nat.mul_div_cancel_left _ hdivisor]
      have hmod : (n + 1) % divisor = 0 := by rw [hnext, Nat.mul_mod_right]
      rw [hdiv, hmod, Nat.mul_succ]
      split_ifs <;> omega

/-- **Over all words a hash that loses nothing meets a condition as often as the numbers do.** -/
theorem count_of_bijective {f : UInt64 → UInt64} (hf : Function.Bijective f) (P : Nat → Prop)
    [DecidablePred P] :
    Nat.count (fun n => P (f (UInt64.ofNat n)).toNat) (2 ^ 64) = Nat.count P (2 ^ 64) := by
  rw [Nat.count_eq_card_filter_range, Nat.count_eq_card_filter_range]
  refine Finset.card_bij (fun n _ => (f (UInt64.ofNat n)).toNat) (fun n hn => ?_)
    (fun n hn m hm heq => ?_) fun k hk => ?_
  · exact Finset.mem_filter.mpr ⟨Finset.mem_range.mpr (UInt64.toNat_lt _),
      (Finset.mem_filter.mp hn).2⟩
  · have hn := Finset.mem_range.mp (Finset.mem_filter.mp hn).1
    have hm := Finset.mem_range.mp (Finset.mem_filter.mp hm).1
    have hword := hf.1 (UInt64.toNat_inj.mp heq)
    rw [← UInt64.toNat_ofNat_of_lt' hn, hword, UInt64.toNat_ofNat_of_lt' hm]
  · obtain ⟨hlt, hP⟩ := Finset.mem_filter.mp hk
    have hlt := Finset.mem_range.mp hlt
    obtain ⟨word, hword⟩ := hf.2 (UInt64.ofNat k)
    have hback : (f (UInt64.ofNat word.toNat)).toNat = k := by
      rw [UInt64.ofNat_toNat, hword, UInt64.toNat_ofNat_of_lt' hlt]
    refine ⟨word.toNat, Finset.mem_filter.mpr ⟨Finset.mem_range.mpr (UInt64.toNat_lt _), ?_⟩, hback⟩
    rwa [hback]

/-- Each number a word holds is what some word is hashed to. -/
theorem exists_of_bijective {f : UInt64 → UInt64} (hf : Function.Bijective f) {k : Nat}
    (hk : k < 2 ^ 64) :
    ∃ n < 2 ^ 64, (f (UInt64.ofNat n)).toNat = k := by
  obtain ⟨word, hword⟩ := hf.2 (UInt64.ofNat k)
  refine ⟨word.toNat, UInt64.toNat_lt _, ?_⟩
  rw [UInt64.ofNat_toNat, hword, UInt64.toNat_ofNat_of_lt' hk]

end Mixing
