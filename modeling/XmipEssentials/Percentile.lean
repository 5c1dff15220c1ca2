import XmipEssentials.Lib.Cyclic
import XmipEssentials.LowLatency

/-!
# The ring and its percentile

A ring of latencies is a list written round (`Cyclic`), so it holds the last `RING` samples however
many there were. Its percentile is an element of what is held, in order, at a rank that is a place
of it for every percentage, and no greater percentage has a lesser one (`ring_percentile`).
-/

namespace XmipEssentials

namespace LowLatency.Ring

/-- The ring of a sequence of samples, the first of them recorded first. -/
def recorded (samples : List Nat) : Ring := samples.foldl (fun r micros => r.record micros) empty

/-- What is held, in order. -/
def sorted (r : Ring) : List Nat := r.samples.insertionSort (· ≤ ·)

/-- A sample recorded is one put into a list written round. -/
theorem record_eq (r : Ring) (micros : Nat) :
    ((r.record micros).samples, (r.record micros).next) =
      Cyclic.put RING micros r.samples r.next := by
  unfold record Cyclic.put
  split_ifs <;> rfl

private theorem recorded_eq (samples : List Nat) :
    ((recorded samples).samples, (recorded samples).next) = Cyclic.putAll RING samples := by
  induction samples using List.reverseRecOn with
  | nil => rfl
  | append_singleton samples micros ih =>
    unfold recorded Cyclic.putAll at ih ⊢
    rw [List.foldl_append, List.foldl_append, ← ih]
    exact record_eq _ micros

private theorem length_sorted (r : Ring) : r.sorted.length = r.len := List.length_insertionSort _ _

/-- The rank of a percentage is a place of what is held. -/
theorem rank_lt {r : Ring} (h : r.samples ≠ []) {p : Nat} (hp : p ≤ 100) :
    p * (r.len - 1) / 100 < r.len := by
  have hpos : 0 < r.len := List.length_pos_iff.mpr h
  have hrank : p * (r.len - 1) / 100 ≤ r.len - 1 := by
    calc p * (r.len - 1) / 100 ≤ 100 * (r.len - 1) / 100 :=
      Nat.div_le_div_right (Nat.mul_le_mul_right _ hp)
      _ = r.len - 1 := Nat.mul_div_cancel_left _ (by decide)
  omega

/-- **A percentile is of what is held**, at its rank. -/
theorem percentile_eq {r : Ring} (h : r.samples ≠ []) {p : Nat} (hp : p ≤ 100) :
    r.sorted[p * (r.len - 1) / 100]? = some (r.percentile p) := by
  have hlt : p * (r.len - 1) / 100 < r.sorted.length :=
    (rank_lt h hp).trans_eq (length_sorted r).symm
  have hpercentile : r.percentile p = (r.sorted[p * (r.len - 1) / 100]?).getD 0 := by
    rw [← length_sorted r]
    exact if_neg h
  rw [hpercentile, List.getElem?_eq_getElem hlt]
  rfl

/-- A greater percentage has no lesser percentile: it has no lesser rank. -/
theorem percentile_mono {r : Ring} (h : r.samples ≠ []) {p q : Nat} (hle : p ≤ q) (hq : q ≤ 100) :
    r.percentile p ≤ r.percentile q := by
  obtain ⟨hplt, hp⟩ := List.getElem?_eq_some_iff.mp (percentile_eq h (hle.trans hq))
  obtain ⟨hqlt, hq⟩ := List.getElem?_eq_some_iff.mp (percentile_eq h hq)
  have hrank : p * (r.len - 1) / 100 ≤ q * (r.len - 1) / 100 :=
    Nat.div_le_div_right (Nat.mul_le_mul_right _ hle)
  rw [← hp, ← hq]
  exact (List.pairwise_insertionSort (· ≤ ·) r.samples).rel_get_of_le hrank

/-- **The ring and its percentile**: after any samples it holds the last of them, 256 at most; and
of any ring that holds one, every percentage has the element of its rank, which no greater one's is
less than. -/
theorem ring_percentile :
    (∀ samples : List Nat,
      (recorded samples).samples.Perm (samples.drop (samples.length - min samples.length 256))) ∧
    ∀ r : Ring, r.samples ≠ [] →
      (∀ p ≤ 100, p * (r.len - 1) / 100 < r.sorted.length ∧
        r.sorted[p * (r.len - 1) / 100]? = some (r.percentile p)) ∧
        ∀ p q, p ≤ q → q ≤ 100 → r.percentile p ≤ r.percentile q := by
  refine ⟨fun samples => ?_, fun r h => ⟨fun p hp => ⟨?_, percentile_eq h hp⟩, fun p q hle hq =>
    percentile_mono h hle hq⟩⟩
  · have hround := Cyclic.Round.ofAll (show 0 < RING by decide) samples
    rw [← recorded_eq] at hround
    have hlast : samples.length - min samples.length 256 = samples.length - RING := by
      unfold RING
      omega
    rw [hlast, ← hround.held]
    exact (Cyclic.perm_readFrom _ _).symm
  · rw [length_sorted]
    exact rank_lt h hp

end LowLatency.Ring

end XmipEssentials
