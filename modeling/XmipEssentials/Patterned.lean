import Mathlib.Algebra.Group.Nat.Defs
import Mathlib.Data.List.Basic
import Mathlib.Tactic.SplitIfs

/-!
# The patterned payload

Each byte of the payload that a truncation, a reorder or a duplicate should show is its offset
folded: a line of slope 31 with a slow drift, modulo 256. Two neighbouring runs of one length
differ, and so exchanging them or repeating the first over the second shows, but for two lengths
(`neighbours_differ_iff`): a run of 33 that begins 218 into one of the drift's steps, where the
drift makes up for what the slope lacks, and any multiple of 32128, a period of the whole.
-/

namespace XmipEssentials

/-! ### The payload -/

/-- An offset folded into a byte. -/
def folded (offset : Nat) : UInt8 := UInt8.ofNat ((offset * 31 + offset / 251) % 256)

/-- Bytes that a truncation, a reorder or a duplicate would change. -/
def patterned (len : Nat) : List UInt8 := (List.range len).map folded

private theorem length_patterned (len : Nat) : (patterned len).length = len := by
  rw [patterned, List.length_map, List.length_range]

/-- The payloads that break protocols, by name, and those of them within a ceiling. -/
def edgePayloads (ceiling : Option Nat) : List (String × List UInt8) :=
  let named :=
    [("empty", []), ("one byte", [0x2a]), ("every byte", (List.range 256).map UInt8.ofNat),
      ("nul run", List.replicate 512 0), ("high bytes", List.replicate 512 0xff),
      ("crlf storm", (List.replicate 400 [13, 10]).flatten), ("mtu minus one", patterned 1471),
      ("mtu", patterned 1472),
      ("mtu plus one", patterned 1473), ("udp maximum", patterned 65507),
      ("sixteen bits plus one", patterned 65537),
      ("a mebibyte", patterned (2 ^ 20))]
  match ceiling with
  | none => named
  | some limit => named.filter fun (_, bytes) => bytes.length ≤ limit

/-- No edge payload is beyond the ceiling. -/
theorem edgePayloads_within {limit : Nat} {name : String} {bytes : List UInt8}
    (h : (name, bytes) ∈ edgePayloads (some limit)) : bytes.length ≤ limit :=
  of_decide_eq_true (List.mem_filter.mp h).2

/-! ### Two offsets that fold alike -/

/-- What two offsets a length apart fold to is the same where the slope over the length, and the
step of the drift the length may cross, come to a multiple of 256. -/
theorem folded_eq_iff (offset length : Nat) :
    folded offset = folded (offset + length) ↔
      256 ∣ 102 * (length / 251) + 31 * (length % 251) + if 251 ≤ offset % 251 + length % 251 then 1
        else 0 := by
  have hbyte : folded offset = folded (offset + length) ↔
      (offset * 31 + offset / 251) % 256 = ((offset + length) * 31 + (offset + length) / 251) %
        256 := by
    unfold folded
    rw [← UInt8.toNat_inj, UInt8.toNat_ofNat_of_lt' (Nat.mod_lt _ (by decide)),
      UInt8.toNat_ofNat_of_lt' (Nat.mod_lt _ (by decide))]
  rw [hbyte]
  -- Of the drift's steps over the length, all but the last are whole ones of 251.
  have hsteps : (offset + length) / 251 =
      offset / 251 + length / 251 + if 251 ≤ offset % 251 + length % 251 then 1 else 0 := by
    split_ifs <;> omega
  -- So the difference of the two is the condition's sum, and a multiple of 256 besides.
  have hslope : (offset + length) * 31 + (offset + length) / 251 = offset * 31 + offset / 251 +
      (102 * (length / 251) + 31 * (length % 251) +
        (if 251 ≤ offset % 251 + length % 251 then 1 else 0) +
        256 * (30 * (length / 251))) := by
    rw [hsteps]
    omega
  have hmultiple : ∀ a c k : Nat, a % 256 = (a + (c + 256 * k)) % 256 ↔ 256 ∣ c := by omega
  rw [hslope, hmultiple]

/-- **A whole run folds like the one after it** in two cases only. -/
theorem run_folds_alike_iff {start length : Nat} (hlength : 1 ≤ length) :
    (∀ offset, start ≤ offset → offset < start + length →
      folded offset = folded (offset + length)) ↔
      length = 33 ∧ start % 251 = 218 ∨ 32128 ∣ length := by
  simp only [folded_eq_iff]
  constructor
  · intro halike
    rcases Nat.lt_or_ge length 251 with hshort | hlong
    · -- The drift takes one step for the whole run or none, and with none the slope alone is no
      -- multiple.
      have hfirst := halike start (Nat.le_refl start) (by omega)
      have hlast := halike (start + (length - 1)) (by omega) (by omega)
      rw [Nat.div_eq_of_lt hshort, Nat.mod_eq_of_lt hshort] at hfirst hlast
      left
      split_ifs at hfirst hlast with hcrosses hcrossed <;> omega
    · rcases Nat.eq_zero_or_pos (length % 251) with hwhole | hpart
      · -- A length of whole steps: the drift takes each of them, from wherever the run starts.
        have hfirst := halike start (Nat.le_refl start) (by omega)
        rw [hwhole, if_neg (by omega)] at hfirst
        right
        omega
      · -- Somewhere within the run the drift takes one step more than elsewhere.
        have hbefore := halike (start + (250 - start % 251)) (by omega) (by omega)
        have hafter := halike (251 * ((start + 250) / 251)) (by omega) (by omega)
        rw [if_pos (by omega)] at hbefore
        rw [if_neg (by omega)] at hafter
        omega
  · rintro (⟨rfl, hstart⟩ | ⟨k, rfl⟩) offset hfrom hto
    · -- Of 33 every offset crosses a step: 31 times 33 and one is 1024.
      rw [if_pos (by omega)]
      decide
    · rw [if_neg (by omega)]
      omega

/-! ### Neighbouring runs -/

/-- The bytes of a payload from a start on, for a length. -/
def run (payload : List UInt8) (start length : Nat) : List UInt8 := (payload.drop start).take length

/-- A payload whose two neighbouring runs changed places. -/
def exchanged (payload : List UInt8) (start length : Nat) : List UInt8 :=
  payload.take start ++ (run payload (start + length) length ++ (run payload start length ++
    payload.drop (start + length + length)))

/-- A payload whose run was written again over the one after it. -/
def repeated (payload : List UInt8) (start length : Nat) : List UInt8 :=
  payload.take start ++ (run payload start length ++ (run payload start length ++
    payload.drop (start + length + length)))

section Runs

variable {payload : List UInt8} {start length : Nat}

private theorem length_run (h : start + length ≤ payload.length) :
    (run payload start length).length = length := by
  rw [run, List.length_take, List.length_drop]
  omega

/-- A payload is what stands before its two runs, the runs, and what stands after. -/
theorem split_at_runs (payload : List UInt8) (start length : Nat) :
    payload = payload.take start ++
      (run payload start length ++ (run payload (start + length) length ++
      payload.drop (start + length + length))) := by
  have hrest : ∀ place, run payload place length ++ payload.drop (place + length) =
    payload.drop place := by
    intro place
    rw [run, ← List.drop_drop, List.take_append_drop]
  rw [hrest, hrest, List.take_append_drop]

private theorem exchanged_eq_iff (h : start + length + length ≤ payload.length) :
    exchanged payload start length = payload ↔
    run payload start length = run payload (start + length) length := by
  have hlength := (length_run h).trans (length_run (Nat.le_of_add_right_le h)).symm
  constructor
  · intro hsame
    have hruns := List.append_cancel_left (hsame.trans (split_at_runs payload start length))
    exact (List.append_inj hruns hlength).1.symm
  · intro hsame
    -- Only the payload it is compared with is taken apart.
    conv_rhs => rw [split_at_runs payload start length]
    rw [exchanged, hsame]

private theorem repeated_eq_iff (h : start + length + length ≤ payload.length) :
    repeated payload start length = payload ↔
    run payload start length = run payload (start + length) length := by
  have hlength := (length_run (Nat.le_of_add_right_le h)).trans (length_run h).symm
  constructor
  · intro hsame
    have hruns := List.append_cancel_left (hsame.trans (split_at_runs payload start length))
    exact (List.append_inj (List.append_cancel_left hruns) hlength).1
  · intro hsame
    conv_rhs => rw [split_at_runs payload start length]
    rw [repeated, ← hsame]

end Runs

private theorem run_patterned {len start length : Nat} (h : start + length ≤ len) :
    run (patterned len) start length = (List.range' start length).map folded := by
  have hrest : length ≤ len - start := by omega
  rw [run, patterned, List.range_eq_range', ← List.map_drop, ← List.map_take, List.drop_range',
    Nat.zero_add, Nat.mul_one, List.take_range'_of_length_ge hrest]

private theorem run_patterned_eq_iff {len start length : Nat} (h : start + length + length ≤ len) :
    run (patterned len) start length = run (patterned len) (start + length) length ↔
      ∀ offset, start ≤ offset → offset < start + length →
      folded offset = folded (offset + length) := by
  -- Both runs are folds of their offsets, those of the second the first's moved on by the length.
  rw [run_patterned (Nat.le_of_add_right_le h), run_patterned h, Nat.add_comm start length,
    ← List.map_add_range', List.map_map, List.map_inj_left]
  simp only [List.mem_range'_1, and_imp, Function.comp_apply, Nat.add_comm length]

/-- **Two neighbouring runs of a patterned payload differ**, and exchanging them or repeating the
first over the second shows, but where a run of 33 begins 218 into a step of the drift or the length
is a multiple of the whole's period. -/
theorem neighbours_differ_iff {len start length : Nat} (hlength : 1 ≤ length)
    (hwithin : start + 2 * length ≤ len) :
    (run (patterned len) start length ≠ run (patterned len) (start + length) length ↔
        ¬(length = 33 ∧ start % 251 = 218 ∨ 32128 ∣ length)) ∧
      (exchanged (patterned len) start length ≠ patterned len ↔
        ¬(length = 33 ∧ start % 251 = 218 ∨ 32128 ∣ length)) ∧
      (repeated (patterned len) start length ≠ patterned len ↔
        ¬(length = 33 ∧ start % 251 = 218 ∨ 32128 ∣ length)) := by
  have hruns : start + length + length ≤ len := by omega
  have hinside : start + length + length ≤ (patterned len).length :=
    (length_patterned len).symm ▸ hruns
  have hdiffer : run (patterned len) start length ≠ run (patterned len) (start + length) length ↔
      ¬(length = 33 ∧ start % 251 = 218 ∨ 32128 ∣ length) :=
    not_congr ((run_patterned_eq_iff hruns).trans (run_folds_alike_iff hlength))
  exact ⟨hdiffer, (not_congr (exchanged_eq_iff hinside)).trans hdiffer,
    (not_congr (repeated_eq_iff hinside)).trans hdiffer⟩

/-- The halves the payload's own test tries. -/
theorem neighbours_differ_iff_halves :
    run (patterned 300) 0 150 ≠ run (patterned 300) (0 + 150) 150 :=
  (neighbours_differ_iff (by decide) (by decide)).1.mpr (by decide)

/-- Of a datagram at the limit, the run of 33 at 218 is the one after it, and the two exchanged do
not show. -/
theorem neighbours_alike : 218 + 2 * 33 ≤ 1472 ∧
    run (patterned 1472) 218 33 = run (patterned 1472) (218 + 33) 33 ∧
    exchanged (patterned 1472) 218 33 = patterned 1472 :=
  have hruns :=
    (run_patterned_eq_iff (by decide)).mpr ((run_folds_alike_iff (by decide)).mpr (.inl ⟨rfl, rfl⟩))
  ⟨by decide, hruns, (exchanged_eq_iff (by rw [length_patterned]; decide)).mpr hruns⟩

end XmipEssentials
