import XmipEssentials.DropBox.Dropping
import XmipEssentials.Records

/-!
# Every dropped file is judged once

What the roll drops and judges is watched (`Roll`), beside the signatures the receiving nodes leave
(`Site`). Each pass of the judgement over a protocol is counted by the time it works by, and each
file judged is logged with the names it was signed with, the pass, and how many signatures had come
by then (`Judgement`).

`Roll.Sound` is what the roll keeps by itself: a file is judged in the first pass that finds its
grace over, and once. `Site.Signed` ties the judgements to the signatures. The receiving nodes move
signatures only; the roll alone moves the rest, and every interleaving keeps both.
-/

namespace XmipEssentials

open Text Conc Keyed

namespace DropBox

/-! ### Judgements told -/

/-- A file judged: the names it was signed with, the pass over its protocol, and how many
signatures, of any file, had come before it was read. -/
structure Judgement where
  key : Key
  winners : List Text
  pass : Nat
  signed : Nat

/-- What the judgements make of a protocol. -/
def tally (l : List Judgement) : Judged :=
  l.foldl (fun j e => j.add e.key.named e.winners) .default

/-- What is judged is what the judgements say: of each file that one node signed it alone, that
several took it, or that none did; and these three are all. -/
structure Judged.Accounts (j : Judged) (l : List Judgement) : Prop where
  files : j.files = l.length
  alone : ∀ n, j.byNode.of n = l.countP fun e => e.winners = [n]
  several : j.twice.map Prod.fst = (l.filter fun e => 2 ≤ e.winners.length).map fun e => e.key.named
  never : j.never = (l.filter fun e => e.winners = []).map fun e => e.key.named
  adds : j.files = j.byNode.total + j.twice.length + j.never.length

private theorem tally_append (l : List Judgement) (e : Judgement) :
    tally (l ++ [e]) = (tally l).add e.key.named e.winners := by
  unfold tally
  rw [List.foldl_append]
  rfl

/-- One more file is one more of just one of the three. -/
theorem Judged.Accounts.add {j : Judged} {l : List Judgement} (h : j.Accounts l) (e : Judgement) :
    (j.add e.key.named e.winners).Accounts (l ++ [e]) := by
  have hperm := List.mergeSort_perm e.winners fun a b => decide (a ≤ b)
  have hlength := hperm.length_eq
  have hadds := h.adds
  unfold Judged.add
  dsimp only
  -- What is added goes by how many names there are once sorted: none, one, or more.
  -- The order does not matter, so each case says as much of the names as they came.
  split
  · next hsorted =>
    rw [hsorted] at hperm
    have hnone : e.winners = [] := hperm.symm.eq_nil
    refine ⟨?_, fun n => ?_, ?_, ?_, ?_⟩
    · rw [List.length_append, h.files]
      rfl
    · rw [List.countP_append, ← h.alone n]
      simp [hnone]
    · rw [List.filter_append, List.map_append, ← h.several]
      simp [hnone]
    · rw [List.filter_append, List.map_append, ← h.never]
      simp [hnone]
    · simp only [List.length_append, List.length_singleton]
      omega
  · next one hsorted =>
    rw [hsorted] at hperm
    have hone : e.winners = [one] := List.perm_singleton.mp hperm.symm
    refine ⟨?_, fun n => ?_, ?_, ?_, ?_⟩
    · rw [List.length_append, h.files]
      rfl
    · rw [List.countP_append, ← h.alone n, Counts.of_add]
      simp [hone, eq_comm]
    · rw [List.filter_append, List.map_append, ← h.several]
      simp [hone]
    · rw [List.filter_append, List.map_append, ← h.never]
      simp [hone]
    · rw [Counts.total_add]
      dsimp only
      omega
  · next hnil hsingle =>
    -- Neither none nor one, so two at least.
    have htwo : 2 ≤ e.winners.length := by
      rw [← hlength]
      rcases hcases : e.winners.mergeSort fun a b => decide (a ≤ b) with _ | ⟨a, _ | ⟨b, rest⟩⟩
      · exact absurd hcases hnil
      · exact absurd hcases (hsingle a)
      · simp
    have hnotNil : e.winners ≠ [] := by
      intro hnone
      simp [hnone] at htwo
    have hnotOne (n : Text) : e.winners ≠ [n] := by
      intro hone
      simp [hone] at htwo
    refine ⟨?_, fun n => ?_, ?_, ?_, ?_⟩
    · rw [List.length_append, h.files]
      rfl
    · rw [List.countP_append, ← h.alone n]
      simp [hnotOne n]
    · rw [List.map_append, h.several, List.filter_append, List.map_append]
      simp [htwo]
    · rw [List.filter_append, List.map_append, ← h.never]
      simp [hnotNil]
    · simp only [List.length_append, List.length_singleton]
      omega

private theorem accounts_tally (l : List Judgement) : (tally l).Accounts l := by
  induction l using List.reverseRecOn with
  | nil => exact ⟨rfl, fun _ => rfl, rfl, rfl, rfl⟩
  | append_singleton l e ih =>
    rw [tally_append]
    exact ih.add e

/-- What is judged held just where every file judged was signed by one node. -/
theorem Judged.Accounts.held_iff {j : Judged} {l : List Judgement} (h : j.Accounts l) :
    j.held = true ↔ ∀ e ∈ l, ∃ n, e.winners = [n] := by
  have htwice : j.twice = [] ↔ ∀ e ∈ l, ¬2 ≤ e.winners.length := by
    rw [← List.map_eq_nil_iff (f := Prod.fst), h.several, List.map_eq_nil_iff,
      List.filter_eq_nil_iff]
    simp
  have hnever : j.never = [] ↔ ∀ e ∈ l, e.winners ≠ [] := by
    rw [h.never, List.map_eq_nil_iff, List.filter_eq_nil_iff]
    simp
  unfold Judged.held
  rw [Bool.and_eq_true, List.isEmpty_iff, List.isEmpty_iff, htwice, hnever]
  -- Neither several nor none is just one.
  constructor
  · rintro ⟨hfew, hsome⟩ e he
    have hlt := not_le.mp (hfew e he)
    have hpos := List.length_pos_of_ne_nil (hsome e he)
    exact List.length_eq_one_iff.mp (by omega)
  · intro hone
    constructor
    · intro e he htwo
      obtain ⟨n, hn⟩ := hone e he
      simp [hn] at htwo
    · intro e he hnone
      obtain ⟨n, hn⟩ := hone e he
      simp [hn] at hnone

/-! ### What the roll drops and judges -/

/-- What the roll dropped and judged. -/
structure Roll where
  /-- The files handed to a transport. -/
  sent : Key → Bool
  /-- When each file that is still recorded was. -/
  dropped : Key → Option Int
  /-- When each file was recorded, and how many passes over its protocol had begun by then. -/
  drops : Key → Option (Int × Nat)
  /-- The times the passes over a protocol worked by. -/
  nows : Protocol → List Int
  /-- The file whose signatures were read last, until it is judged. -/
  reading : Option Judgement
  log : List Judgement
  told : Protocol → Judged

namespace Roll

/-- The files judged. -/
def judged (x : Roll) : List Key := x.log.map Judgement.key

/-- A file recorded. -/
def record (x : Roll) (k : Key) (t : Int) : Roll :=
  { x with
    dropped := Function.update x.dropped k (some t)
    drops := Function.update x.drops k (some (t, (x.nows k.protocol).length)) }

/-- A file handed to a transport. -/
def send (x : Roll) (k : Key) : Roll := { x with sent := Function.update x.sent k true }

/-- A pass begun. -/
def pass (x : Roll) (p : Protocol) (now : Int) : Roll :=
  { x with nows := Function.update x.nows p (x.nows p ++ [now]) }

/-- The signatures of a file read. -/
def read (x : Roll) (k : Key) (winners : List Text) (signed : Nat) : Roll :=
  { x with reading := some ⟨k, winners, (x.nows k.protocol).length - 1, signed⟩ }

/-- The file read judged. -/
def judge (x : Roll) (p : Protocol) (j : Judged) : Roll :=
  { x with
    reading := none
    log := x.log ++ x.reading.toList
    told := Function.update x.told p j }

/-- A file's record removed. -/
def remove (x : Roll) (k : Key) : Roll := { x with dropped := Function.update x.dropped k none }

/-- A file is judged in the first pass, of those begun after it was recorded, that finds its grace
over. -/
def Timely (x : Roll) (e : Judgement) : Prop :=
  ∃ t since now, x.drops e.key = some (t, since) ∧ since ≤ e.pass ∧
    (x.nows e.key.protocol)[e.pass]? = some now ∧ t + GRACE ≤ now ∧
      ∀ (q : Nat) (earlier : Int), since ≤ q → q < e.pass →
      (x.nows e.key.protocol)[q]? = some earlier →
        earlier < t + GRACE

/-- No file that waits was due in a pass before the one of that number. -/
def Waits (x : Roll) (k : Key) (before : Nat) : Prop :=
  ∀ t since, x.drops k = some (t, since) → k ∉ x.judged → ∀ (q : Nat) (earlier : Int), since ≤ q →
    q < before →
    (x.nows k.protocol)[q]? = some earlier → earlier < t + GRACE

/-- What the roll keeps by itself. -/
structure Sound (x : Roll) : Prop where
  /-- A file dropped and not judged is recorded. -/
  left : ∀ k t since, x.drops k = some (t, since) → k ∉ x.judged → x.dropped k = some t
  recorded : ∀ k t, x.dropped k = some t → ∃ since, x.drops k = some (t, since)
  since : ∀ k t since, x.drops k = some (t, since) → since ≤ (x.nows k.protocol).length
  /-- Only the last pass over a protocol may have left a file it finds due. -/
  waits : ∀ k, x.Waits k ((x.nows k.protocol).length - 1)
  once : x.judged.Nodup
  timely : ∀ e ∈ x.log ++ x.reading.toList, x.Timely e
  fresh : ∀ e ∈ x.reading, e.key ∉ x.judged
  told : ∀ p, x.told p = tally (x.log.filter fun e => e.key.protocol = p)

variable {x : Roll} {k : Key}

/-- What was judged had been dropped. -/
theorem Sound.dropped_of_judged (h : x.Sound) (hk : k ∈ x.judged) : (x.drops k).isSome := by
  obtain ⟨e, he, rfl⟩ := List.mem_map.mp hk
  obtain ⟨t, since, _, hdrops, -⟩ := h.timely e (List.mem_append_left _ he)
  rw [hdrops]
  rfl

private theorem Timely.mono {y : Roll} {e : Judgement} (h : x.Timely e)
    (hdrops : y.drops e.key = x.drops e.key)
    (hnows : x.nows e.key.protocol <+: y.nows e.key.protocol) : y.Timely e := by
  obtain ⟨t, since, now, hdrop, hle, hnow, hdue, hfirst⟩ := h
  have hpass := (List.getElem?_eq_some_iff.mp hnow).1
  have hsame (q : Nat) (hq : q ≤ e.pass) : (y.nows e.key.protocol)[q]? =
    (x.nows e.key.protocol)[q]? := by
    -- Passes are only added behind, so those up to the judgement's own are the same.
    obtain ⟨more, hmore⟩ := hnows
    rw [← hmore, List.getElem?_append_left (by omega)]
  refine ⟨t, since, now, hdrops.trans hdrop, hle, (hsame _ le_rfl).trans hnow, hdue, ?_⟩
  intro q earlier hq hlt hearlier
  rw [hsame q hlt.le] at hearlier
  exact hfirst q earlier hq hlt hearlier

/-- A file just recorded waits for the passes to come. -/
theorem Waits.record {k' : Key} {before : Nat} (h : x.Waits k' before)
    (hle : before ≤ (x.nows k'.protocol).length) (k : Key) (t : Int) :
    (x.record k t).Waits k' before := by
  intro t' since hdrop hnot q earlier hq hlt hearlier
  by_cases hne : k' = k
  · subst hne
    rw [show (x.record k' t).drops k' = some (t, (x.nows k'.protocol).length) from
      Function.update_self ..] at hdrop
    obtain ⟨-, rfl⟩ := Prod.mk.inj (Option.some.inj hdrop)
    -- Recorded in the last pass begun, it was due in none before.
    omega
  · rw [show (x.record k t).drops k' = x.drops k' from Function.update_of_ne hne _ _] at hdrop
    exact h t' since hdrop hnot q earlier hq hlt hearlier

/-- A file that is not judged may be recorded again, and waits anew. -/
theorem Sound.record (h : x.Sound) (hk : k ∉ x.judged) (hreading : x.reading = none) (t : Int) :
    (x.record k t).Sound := by
  have hdrops (k' : Key) (hne : k' ≠ k) : (x.record k t).drops k' = x.drops k' :=
    Function.update_of_ne hne _ _
  have hdropped (k' : Key) (hne : k' ≠ k) : (x.record k t).dropped k' = x.dropped k' :=
    Function.update_of_ne hne _ _
  have hself : (x.record k t).drops k = some (t, (x.nows k.protocol).length) :=
    Function.update_self ..
  have hrecord : (x.record k t).dropped k = some t := Function.update_self ..
  refine ⟨?_, ?_, ?_, ?_, h.once, ?_, ?_, h.told⟩
  · intro k' t' since hdrop hnot
    by_cases hne : k' = k
    · subst hne
      rw [hself] at hdrop
      obtain ⟨rfl, -⟩ := Prod.mk.inj (Option.some.inj hdrop)
      exact hrecord
    · rw [hdropped k' hne]
      rw [hdrops k' hne] at hdrop
      exact h.left k' t' since hdrop hnot
  · intro k' t' hrecorded
    by_cases hne : k' = k
    · subst hne
      rw [hrecord] at hrecorded
      obtain rfl := Option.some.inj hrecorded
      exact ⟨_, hself⟩
    · rw [hdropped k' hne] at hrecorded
      rw [hdrops k' hne]
      exact h.recorded k' t' hrecorded
  · intro k' t' since hdrop
    by_cases hne : k' = k
    · subst hne
      rw [hself] at hdrop
      obtain ⟨-, rfl⟩ := Prod.mk.inj (Option.some.inj hdrop)
      exact le_rfl
    · rw [hdrops k' hne] at hdrop
      exact h.since k' t' since hdrop
  · intro k'
    exact (h.waits k').record (Nat.sub_le _ _) k t
  · intro e he
    have hin : e ∈ x.log := by
      change e ∈ x.log ++ x.reading.toList at he
      rwa [hreading, Option.toList_none, List.append_nil] at he
    -- The judgements are of other files, whose records stay.
    have hne : e.key ≠ k := by
      rintro rfl
      exact hk (List.mem_map_of_mem hin)
    exact (h.timely e (List.mem_append_left _ hin)).mono (hdrops _ hne) (List.prefix_refl _)
  · intro e he
    change e ∈ x.reading at he
    rw [hreading] at he
    cases he

private theorem Sound.send (h : x.Sound) (k : Key) : (x.send k).Sound :=
  ⟨h.left, h.recorded, h.since, h.waits, h.once, h.timely, h.fresh, h.told⟩

/-- A pass may begin where the one before it left no file it found due. -/
theorem Sound.pass (h : x.Sound) {p : Protocol} (now : Int)
    (hpassed : ∀ k, k.protocol = p → x.Waits k (x.nows k.protocol).length) :
    (x.pass p now).Sound := by
  have hother (q : Protocol) (hne : q ≠ p) : (x.pass p now).nows q = x.nows q :=
    Function.update_of_ne hne _ _
  have hself : (x.pass p now).nows p = x.nows p ++ [now] := Function.update_self ..
  have hgrows (q : Protocol) : x.nows q <+: (x.pass p now).nows q := by
    by_cases hne : q = p
    · rw [hne, hself]
      exact List.prefix_append _ _
    · rw [hother q hne]
  -- Only what rests on the number of passes is to be shown anew: that no file is recorded in a
  -- later one, that what waits was due in none but the last, and that judgements stay timely.
  refine ⟨h.left, h.recorded, ?_, ?_, h.once, ?_, h.fresh, h.told⟩
  · intro k t since hdrop
    exact (h.since k t since hdrop).trans (hgrows k.protocol).length_le
  · intro k t since hdrop hnot q earlier hq hlt hearlier
    by_cases hne : k.protocol = p
    · -- In front of the pass begun are those that left nothing due.
      rw [hne, hself] at hlt hearlier
      rw [List.length_append, List.length_singleton, Nat.add_sub_cancel] at hlt
      rw [List.getElem?_append_left hlt] at hearlier
      exact hpassed k hne t since hdrop hnot q earlier hq (hne ▸ hlt) (hne ▸ hearlier)
    · rw [hother _ hne] at hlt hearlier
      exact h.waits k t since hdrop hnot q earlier hq hlt hearlier
  · intro e he
    exact (h.timely e he).mono rfl (hgrows _)

/-- A file's signatures are read in the first pass that finds it due. -/
theorem Sound.read (h : x.Sound) {winners : List Text} {signed : Nat} (hk : k ∉ x.judged)
    (htimely : x.Timely ⟨k, winners, (x.nows k.protocol).length - 1, signed⟩) :
    (x.read k winners signed).Sound := by
  refine ⟨h.left, h.recorded, h.since, h.waits, h.once, ?_, ?_, h.told⟩
  · intro e he
    rcases List.mem_append.mp he with he | he
    · exact h.timely e (List.mem_append_left _ he)
    · obtain rfl := List.mem_singleton.mp he
      exact htimely
  · intro e he
    obtain rfl := Option.mem_some_iff.mp he
    exact hk

/-- The file read is judged by who had signed it. -/
theorem Sound.judge (h : x.Sound) {e : Judgement} (hreading : x.reading = some e) :
    (x.judge e.key.protocol ((x.told e.key.protocol).add e.key.named e.winners)).Sound := by
  have hlog : (x.judge e.key.protocol ((x.told e.key.protocol).add e.key.named e.winners)).log =
    x.log ++ [e] := by
    change x.log ++ x.reading.toList = _
    rw [hreading]
    rfl
  -- A file judged stays judged, so what was said of those that are not still is.
  have hmore (k : Key) : k ∈ x.judged →
      k ∈ (x.judge e.key.protocol ((x.told e.key.protocol).add e.key.named e.winners)).judged := by
    intro hk
    unfold judged
    rw [hlog, List.map_append]
    exact List.mem_append_left _ hk
  have hfresh : e.key ∉ x.judged := h.fresh e hreading
  refine ⟨fun k t since hdrop hnot => h.left k t since hdrop fun hk => hnot (hmore k hk),
    h.recorded, h.since, fun k t since hdrop hnot => h.waits k t since hdrop fun hk =>
    hnot (hmore k hk), ?_, ?_, ?_, fun p => ?_⟩
  · unfold judged
    rw [hlog, List.map_append, List.map_singleton]
    -- The file read was not judged before.
    exact h.once.append (List.nodup_singleton _) (List.disjoint_singleton.mpr hfresh)
  · intro one hone
    apply h.timely one
    rw [hreading]
    rw [hlog] at hone
    change one ∈ x.log ++ [e] ++ [] at hone
    rwa [List.append_nil] at hone
  · intro one hone
    cases hone
  · rw [hlog, List.filter_append]
    by_cases hp : e.key.protocol = p
    · -- Its own protocol's judgements are one more; those of the others are as they were.
      subst hp
      rw [List.filter_singleton, decide_eq_true rfl, cond_true, tally_append, ← h.told]
      exact Function.update_self ..
    · rw [List.filter_singleton, decide_eq_false hp, cond_false, List.append_nil, ← h.told]
      exact Function.update_of_ne (Ne.symm hp) _ _

/-- A judged file's record may go. -/
theorem Sound.remove (h : x.Sound) (hk : k ∈ x.judged) : (x.remove k).Sound := by
  refine ⟨?_, ?_, h.since, h.waits, h.once, h.timely, h.fresh, h.told⟩
  · intro k' t since hdrop hnot
    have hne : k' ≠ k := by
      -- A file that waits is not the one judged.
      rintro rfl
      exact hnot hk
    exact (Function.update_of_ne hne _ _).trans (h.left k' t since hdrop hnot)
  · intro k' t hrecorded
    by_cases hne : k' = k
    · subst hne
      rw [show (x.remove k').dropped k' = none from Function.update_self ..] at hrecorded
      cases hrecorded
    · exact h.recorded k' t ((Function.update_of_ne hne _ _).symm.trans hrecorded)

/-! ### What the roll knows -/

/-- Names of drops tell their rounds apart. -/
theorem dropName_inj {round round' one one' : Nat} (h : dropName round one = dropName round' one') :
    round = round' := by
  have hplain (n : Nat) : '-' ∉ padded 10 n := fun hmem => absurd (padded_isDigit hmem) (by decide)
  -- Ten digits hold no dash, so the first dash ends the round.
  have hsplit := congrArg (splitOnce ['-']) h
  unfold dropName at hsplit
  rw [List.append_cons, List.append_cons (padded 10 round'), splitOnce_append (hplain round),
    splitOnce_append (hplain round')] at hsplit
  exact padded_injective (Prod.mk.inj (Option.some.inj hsplit)).1

/-- The roll is reading no file's signatures, and only files not judged are recorded, each in a
round so far. -/
structure Idle (parties : List Text) (round : Nat) (x : Roll) : Prop where
  reading : x.reading = none
  waiting : ∀ k t, x.dropped k = some t → k ∉ x.judged
  named : ∀ k, (x.drops k).isSome → k.party ∈ parties ∧ ∃ earlier one, earlier ≤ round ∧
    k.file = dropName earlier one

/-- Between two passes every file that waits is within its grace, and the roll's judgements are
those told. -/
structure Calm (parties : List Text) (r : Dropping) (x : Roll) :
    Prop extends Idle parties r.round x where
  passed : ∀ k, x.Waits k (x.nows k.protocol).length
  told : ∀ p, r.judged p = x.told p

/-- While bursts are dropped, no file of the round is judged. -/
structure Bursts (parties : List Text) (round : Nat) (r : Dropping) (x : Roll) :
    Prop extends Calm parties r x where
  now : r.round = round
  fresh : ∀ k ∈ x.judged, ∀ one, k.file ≠ dropName round one

/-- In a pass over a protocol that works by `now`, with `ahead` still to be looked at. -/
structure Passing (parties : List Text) (r : Dropping) (p : Protocol) (now : Int)
    (ahead : Key → Prop) (j : Judged) (x : Roll) : Prop extends Idle parties r.round x where
  passed : ∀ k, k.protocol ≠ p → x.Waits k (x.nows k.protocol).length
  told : ∀ q, q ≠ p → r.judged q = x.told q
  judged : j = x.told p
  begun : ∃ before, x.nows p = before ++ [now] ∧
    ∀ k t since, k.protocol = p → x.drops k = some (t, since) → since ≤ before.length
  ahead : ∀ k t, k.protocol = p → x.dropped k = some t → now < t + GRACE ∨ ahead k

variable {parties : List Text} {r : Dropping} {p : Protocol} {now : Int} {j : Judged}
  {ahead ahead' : Key → Prop}

/-- A new round begins with no file of its own judged. -/
theorem Calm.bursts (h : Calm parties r x) (hsound : x.Sound) :
    Bursts parties (r.round + 1) { r with round := r.round + 1 } x := by
  refine ⟨⟨⟨h.reading, h.waiting, fun k hk => ?_⟩, h.passed, h.told⟩, rfl, fun k hk one hfile => ?_⟩
  · obtain ⟨hparty, earlier, one, hle, hfile⟩ := h.named k hk
    exact ⟨hparty, earlier, one, Nat.le_succ_of_le hle, hfile⟩
  · obtain ⟨-, earlier, other, hle, hother⟩ := h.named k (hsound.dropped_of_judged hk)
    -- A file judged is of a round before this one.
    have := dropName_inj (hother.symm.trans hfile)
    omega

private theorem Bursts.record {round : Nat} (h : Bursts parties round r x) {party : Text}
    (hparty : party ∈ parties) (one : Nat) (t : Int) :
    Bursts parties round r (x.record ⟨p, party, dropName round one⟩ t) := by
  refine ⟨⟨⟨h.reading, fun k' t' hdropped => ?_, fun k' hk' => ?_⟩, fun k' => ?_, h.told⟩, h.now,
    h.fresh⟩
  · by_cases hne : k' = ⟨p, party, dropName round one⟩
    · -- No file of this round is judged while it drops.
      intro hjudged
      exact h.fresh k' hjudged one (congrArg Key.file hne)
    · rw [show (x.record _ t).dropped k' = x.dropped k' from Function.update_of_ne hne _ _]
        at hdropped
      exact h.waiting k' t' hdropped
  · by_cases hne : k' = ⟨p, party, dropName round one⟩
    · subst hne
      exact ⟨hparty, round, one, h.now.ge, rfl⟩
    · rw [show (x.record _ t).drops k' = x.drops k' from Function.update_of_ne hne _ _] at hk'
      exact h.named k' hk'
  · exact (h.passed k').record le_rfl _ t

/-- A pass begins with every recorded file ahead. -/
theorem Calm.passing (h : Calm parties r x) (hsound : x.Sound) (p : Protocol) (now : Int) :
    Passing parties r p now (fun k => k.party ∈ parties) (r.judged p) (x.pass p now) := by
  have hother (q : Protocol) (hne : q ≠ p) : (x.pass p now).nows q = x.nows q :=
    Function.update_of_ne hne _ _
  refine ⟨⟨h.reading, h.waiting, h.named⟩, fun k hne => ?_, fun q _ => h.told q, h.told p, ?_,
    fun k t hk hdropped => ?_⟩
  · unfold Waits
    rw [hother _ hne]
    exact h.passed k
  · refine ⟨x.nows p, Function.update_self .., fun k t since hk hdrop => ?_⟩
    -- Every file was recorded when there were no more passes than those before this one.
    rw [← hk]
    exact hsound.since k t since hdrop
  · obtain ⟨since, hdrop⟩ := hsound.recorded k t hdropped
    exact .inr (h.named k (Option.isSome_iff_exists.mpr ⟨_, hdrop⟩)).1

/-- After a pass no file that waits was due in it. -/
theorem Passing.calm (h : Passing parties r p now (fun _ => False) j x) (hsound : x.Sound) :
    Calm parties { r with judged := Function.update r.judged p j } x := by
  refine ⟨⟨h.reading, h.waiting, h.named⟩, fun k => ?_, fun q => ?_⟩
  · by_cases hk : k.protocol = p
    · intro t since hdrop hnot q earlier hq hlt hearlier
      by_cases hlast : q < (x.nows k.protocol).length - 1
      · exact hsound.waits k t since hdrop hnot q earlier hq hlast hearlier
      · -- The last pass is this one.
        obtain ⟨before, hnows, -⟩ := h.begun
        rw [hk, hnows, List.length_append, List.length_singleton] at hlast hlt
        rw [hk, hnows, show q = before.length by omega, List.getElem?_concat_length] at hearlier
        obtain rfl := Option.some.inj hearlier
        exact (h.ahead k t hk (hsound.left k t since hdrop hnot)).resolve_right not_false
    · exact h.passed k hk
  · by_cases hq : q = p
    · subst hq
      exact (Function.update_self ..).trans h.judged
    · exact (Function.update_of_ne hq _ _).trans (h.told q hq)

/-- What is ahead may be said otherwise, of the files recorded. -/
theorem Passing.imp (h : Passing parties r p now ahead j x)
    (hahead : ∀ k t, k.protocol = p → x.dropped k = some t → ahead k → now < t + GRACE ∨ ahead' k) :
    Passing parties r p now ahead' j x where
  toIdle := h.toIdle
  passed := h.passed
  told := h.told
  judged := h.judged
  begun := h.begun
  ahead k t hk hdropped := (h.ahead k t hk hdropped).elim .inl (hahead k t hk hdropped)

/-- What a file judged leaves: its judgement, and no record. -/
def closed (x : Roll) (k : Key) (names : List Text) (signed : Nat) (j : Judged) : Roll :=
  ((x.read k names signed).judge k.protocol j).remove k

private theorem judged_closed (names : List Text) (signed : Nat) :
    (x.closed k names signed j).judged = x.judged ++ [k] := by
  change (x.log ++ [_]).map Judgement.key = _
  rw [List.map_append]
  rfl

private theorem Waits.closed {k' : Key} {before : Nat} (h : x.Waits k' before) (names : List Text)
    (signed : Nat) :
    (x.closed k names signed j).Waits k' before := by
  intro t since hdrop hnot
  refine h t since hdrop fun hk' => hnot ?_
  rw [judged_closed]
  exact List.mem_append_left _ hk'

/-- A file looked at and judged is recorded no more. -/
theorem Passing.closed (h : Passing parties r p now ahead j x) (hk : k.protocol = p)
    (hahead : ∀ k', ahead k' → k' = k ∨ ahead' k') (names : List Text) (signed : Nat)
    (j' : Judged) :
    Passing parties r p now ahead' j' (x.closed k names signed j') := by
  subst hk
  -- A record that is left is of another file, and was there.
  have hdropped {k' : Key} {t : Int} (hk' : (x.closed k names signed j').dropped k' = some t) :
      k' ≠ k ∧ x.dropped k' = some t := by
    change Function.update x.dropped k none k' = some t at hk'
    by_cases hne : k' = k
    · subst hne
      rw [Function.update_self] at hk'
      cases hk'
    · rw [Function.update_of_ne hne] at hk'
      exact ⟨hne, hk'⟩
  refine ⟨⟨rfl, fun k' t hk' => ?_, h.named⟩, fun k' hne => (h.passed k' hne).closed names signed,
    fun q hq => ?_, ?_, h.begun, fun k' t hp hk' => ?_⟩
  · obtain ⟨hne, hwas⟩ := hdropped hk'
    rw [judged_closed, List.mem_append, List.mem_singleton]
    rintro (hin | rfl)
    · exact h.waiting k' t hwas hin
    · exact hne rfl
  · exact (h.told q hq).trans (Function.update_of_ne hq _ _).symm
  · exact (Function.update_self k.protocol j' x.told).symm
  · obtain ⟨hne, hwas⟩ := hdropped hk'
    exact (h.ahead k' t hp hwas).imp_right fun hin => (hahead k' hin).resolve_left hne

/-- A recorded file that is due is judged in the first pass that finds it so. -/
theorem Passing.timely (h : Passing parties r p now ahead j x) (hsound : x.Sound)
    (hk : k.protocol = p) {t : Int} (hdropped : x.dropped k = some t) (hdue : t + GRACE ≤ now)
    (names : List Text) (signed : Nat) :
    x.Timely ⟨k, names, (x.nows k.protocol).length - 1, signed⟩ := by
  obtain ⟨since, hdrop⟩ := hsound.recorded k t hdropped
  obtain ⟨before, hnows, hbegun⟩ := h.begun
  -- The pass it is read in is this one, the last begun.
  have hlength : (x.nows k.protocol).length - 1 = before.length := by
    rw [hk, hnows, List.length_append, List.length_singleton, Nat.add_sub_cancel]
  refine ⟨t, since, now, hdrop, ?_, ?_, hdue, ?_⟩
  · rw [hlength]
    exact hbegun k t since hk hdrop
  · rw [hlength, hk, hnows]
    exact List.getElem?_concat_length
  · intro q earlier
    exact hsound.waits k t since hdrop (h.waiting k t hdropped) q earlier

end Roll

/-! ### The drop box watched -/

/-- What the roll did, the names each file is signed with now, and every signature there has
been. -/
structure Site where
  roll : Roll
  won : Key → Option (List Text)
  signs : List (Key × Text)

namespace Site

open Roll

variable {ν : Type}

/-- The names a file is signed with. -/
def winners (s : Site) (k : Key) : List Text := (s.won k).getD []

/-- A file's signatures at so many names, or none at all. -/
def setWon (s : Site) (k : Key) (names : Option (List Text)) : Site :=
  { s with won := Function.update s.won k names }

/-- A file signed, where there is a place for its signatures. -/
def sign (s : Site) (k : Key) (name : Text) : Site :=
  match s.won k with
  | some names => { s.setWon k (some (names.insert name)) with signs := s.signs ++ [(k, name)] }
  | none => s

/-- What a call does. The roll is the only one that records, sends and judges; a transport hands
over files that were sent, to as many nodes and as often as it likes; and what a node signs while
its file's signatures are cleared may stay. -/
def Acts : {β : Type} → DropOp β → Site → β → Site → Prop
  | _, .record k, s, b, s' =>
    (∃ t, b = .ok () ∧ s' = { s with roll := s.roll.record k t }) ∨ ∃ why, b = .error why ∧ s' = s
  | _, .send k _, s, _, s' => s' = { s with roll := s.roll.send k }
  | _, .clock p, s, b, s' => s' = { s with roll := s.roll.pass p b }
  | _, .records p party, s, b, s' => s' = s ∧
      match b with
      | .ok files => ∀ file, file ∈ files ↔ (s.roll.dropped ⟨p, party, file⟩).isSome
      | .error _ => ∀ file, s.roll.dropped ⟨p, party, file⟩ = none
  | _, .modified k, s, b, s' => b = s.roll.dropped k ∧ s' = s
  | _, .winners k, s, b, s' =>
      List.Perm (Judged.namesOf b) (s.winners k) ∧
        s' = { s with roll := s.roll.read k (Judged.namesOf b) s.signs.length }
  | _, .judges p j, s, _, s' => s' = { s with roll := s.roll.judge p j }
  | _, .removeRecord k, s, _, s' => s' = { s with roll := s.roll.remove k }
  | _, .removeWon k, s, _, s' => ∃ rest, s' = s.setWon k rest ∧ (rest.getD []).Sublist (s.winners k)
  | _, .receive p party, s, b, s' => s' = s ∧
      ∀ arrived, b = .ok arrived → ∀ origin ∈ arrived, s.roll.sent ⟨p, party, fileOf origin⟩ = true
  | _, .makeWon k, s, _, s' => s' = s.setWon k (some (s.winners k))
  | _, .sign k name, s, _, s' => s' = s.sign k name
  | _, _, s, _, s' => s' = s

def acts : Exec (Option ν) DropOp Site := fun _ _ op s b s' => Acts op s b s'

/-- The names a file is judged by are those it was signed with by then: no signature of another
file, and none that came later, is among them. -/
def Signed (s : Site) (e : Judgement) : Prop :=
  e.winners.Nodup ∧ e.signed ≤ s.signs.length ∧ ∀ name, name ∈ e.winners ↔
    (e.key, name) ∈ s.signs.take e.signed

/-- What holds of the drop box, whoever moves. -/
structure Kept (s : Site) : Prop where
  sound : s.roll.Sound
  nodup : ∀ k, (s.winners k).Nodup
  /-- A file not judged yet bears every signature there was of it. -/
  kept : ∀ k, k ∉ s.roll.judged → ∀ name, name ∈ s.winners k ↔ (k, name) ∈ s.signs
  signed : ∀ e ∈ s.roll.log ++ s.roll.reading.toList, s.Signed e

/-- What a move does not do: the roll adds to the judgements and signs nothing, and a node moves
nothing of the roll's and no signatures but of one file. -/
def Move (ν : Type) : Option ν → Site → Site → Prop
  | none, s, s' => s.roll.log <+: s'.roll.log ∧ s'.signs = s.signs
  | some _, s, s' => s'.roll = s.roll ∧ ∃ k, ∀ k', k' ≠ k → s'.won k' = s.won k'

variable {s s' : Site} {k : Key}

private theorem winners_setWon_self (names : Option (List Text)) :
    (s.setWon k names).winners k = names.getD [] := by
  have hwon : (s.setWon k names).won k = names := Function.update_self ..
  rw [Site.winners, hwon]

private theorem winners_setWon_of_ne {k' : Key} (names : Option (List Text)) (h : k' ≠ k) :
    (s.setWon k names).winners k' = s.winners k' := by
  have hwon : (s.setWon k names).won k' = s.won k' := Function.update_of_ne h _ _
  rw [Site.winners, hwon, Site.winners]

private theorem Signed.mono {e : Judgement} (h : s.Signed e) (hsigns : s.signs <+: s'.signs) :
    s'.Signed e := by
  obtain ⟨hnodup, hle, hnames⟩ := h
  obtain ⟨more, hmore⟩ := hsigns
  refine ⟨hnodup, ?_, fun name => ?_⟩
  · rw [← hmore, List.length_append]
    omega
  · rw [← hmore, List.take_append_of_le_length hle]
    exact hnames name

/-! ### What each call keeps -/

/-- What the roll does for itself is kept where it judges no file it had not read. -/
theorem Kept.ofRoll (h : s.Kept) {x : Roll} (hsound : x.Sound)
    (hjudged : ∀ k, k ∈ s.roll.judged → k ∈ x.judged)
    (hentries : ∀ e ∈ x.log ++ x.reading.toList, e ∈ s.roll.log ++ s.roll.reading.toList) :
    Kept { s with roll := x } :=
  ⟨hsound, h.nodup, fun k hk => h.kept k fun hin => hk (hjudged k hin),
    fun e he => h.signed e (hentries e he)⟩

private theorem Kept.winners (h : s.Kept) {names : List Text} (hk : k ∉ s.roll.judged)
    (hperm : List.Perm names (s.winners k))
    (htimely : s.roll.Timely ⟨k, names, (s.roll.nows k.protocol).length - 1, s.signs.length⟩) :
    Kept { s with roll := s.roll.read k names s.signs.length } := by
  refine ⟨h.sound.read hk htimely, h.nodup, h.kept, fun e he => ?_⟩
  rcases List.mem_append.mp he with he | he
  · exact h.signed e (List.mem_append_left _ he)
  · obtain rfl := List.mem_singleton.mp he
    refine ⟨hperm.nodup_iff.mpr (h.nodup k), le_rfl, fun name => ?_⟩
    -- Read are all the signatures there were by now.
    rw [List.take_length]
    exact hperm.mem_iff.trans (h.kept k hk name)

/-- The signatures of a judged file may go. -/
theorem Kept.removeWon (h : s.Kept) (hk : k ∈ s.roll.judged) {rest : Option (List Text)}
    (hrest : (rest.getD []).Sublist (s.winners k)) : (s.setWon k rest).Kept := by
  refine ⟨h.sound, fun k' => ?_, fun k' hk' name => ?_, h.signed⟩
  · by_cases hne : k' = k
    · -- What may stay of them is no name twice.
      rw [hne, winners_setWon_self]
      exact (h.nodup k).sublist hrest
    · rw [winners_setWon_of_ne rest hne]
      exact h.nodup k'
  · have hne : k' ≠ k := by
      -- Only of files not judged is anything said of the signatures.
      rintro rfl
      exact hk' hk
    rw [winners_setWon_of_ne rest hne]
    exact h.kept k' hk' name

private theorem Kept.makeWon (h : s.Kept) : (s.setWon k (some (s.winners k))).Kept := by
  have hsame (k' : Key) : (s.setWon k (some (s.winners k))).winners k' = s.winners k' := by
    by_cases hne : k' = k
    · rw [hne, winners_setWon_self]
      rfl
    · exact winners_setWon_of_ne _ hne
  refine ⟨h.sound, fun k' => ?_, fun k' hk' name => ?_, h.signed⟩
  · rw [hsame]
    exact h.nodup k'
  · rw [hsame]
    exact h.kept k' hk' name

/-- **A signature** is of its own file, and of no judgement made by then. -/
theorem Kept.sign (h : s.Kept) (name : Text) : (s.sign k name).Kept := by
  unfold Site.sign
  split
  · next names hnames =>
    have hwas : s.winners k = names := congrArg (fun one : Option (List Text) => one.getD []) hnames
    have hnow (k' : Key) (hne : k' ≠ k) : (s.setWon k (some (names.insert name))).winners k' =
      s.winners k' :=
      winners_setWon_of_ne _ hne
    have hself : (s.setWon k (some (names.insert name))).winners k = names.insert name :=
      winners_setWon_self _
    refine ⟨h.sound, fun k' => ?_, fun k' hk' one => ?_, fun e he => ?_⟩
    · change ((s.setWon k (some (names.insert name))).winners k').Nodup
      by_cases hne : k' = k
      · rw [hne, hself]
        exact (hwas ▸ h.nodup k).insert
      · rw [hnow k' hne]
        exact h.nodup k'
    · change one ∈ (s.setWon k (some (names.insert name))).winners k' ↔
        (k', one) ∈ s.signs ++ [(k, name)]
      rw [List.mem_append, List.mem_singleton]
      by_cases hne : k' = k
      · subst hne
        -- Its own file bears one name more, which is the signature added.
        rw [hself, List.mem_insert_iff, ← h.kept k' hk' one, hwas, Prod.mk.injEq, or_comm]
        simp only [true_and]
      · rw [hnow k' hne, h.kept k' hk' one]
        -- The signature added is none of another file's.
        simp [hne]
    · exact (h.signed e he).mono (List.prefix_append _ _)
  · exact h

/-! ### The receiving nodes -/

/-- What a receiving node calls. -/
def TakerCall : ⦃β : Type⦄ → DropOp β → Prop
  | _, .now | _, .transport .. | _, .receive .. | _, .readToEnd | _, .acknowledge _ | _, .makeWon _
  | _, .sign .. => True
  | _, _ => False

private theorem takes_takeArrived (name : Text) (arrived : List Text) (location : DropLocation) :
    (Taker.takeArrived name arrived location).Only TakerCall := by
  induction arrived generalizing location with
  | nil => trivial
  | cons origin rest ih =>
    refine ⟨trivial, fun read => ⟨trivial, fun acknowledged => ?_⟩⟩
    change Prog.Only TakerCall (if (acknowledged && read) = true then _ else _)
    split
    · exact ⟨trivial, fun _ => ⟨trivial, fun _ => ih _⟩⟩
    · exact ih _

private theorem takes_takeFrom (name : Text) (location : DropLocation) :
    (Taker.takeFrom name location).Only TakerCall := by
  refine Prog.Only.bind ?_ fun location => ?_
  · unfold Taker.reached
    split
    · trivial
    · refine ⟨trivial, fun built => ?_⟩
      rcases built with _ | _ | _ <;> trivial
  · split
    · trivial
    · refine ⟨trivial, fun arrived => ?_⟩
      cases arrived with
      | ok arrived => exact takes_takeArrived name arrived location
      | error why => trivial

private theorem takes_take {S : Type} [Snapshot S] (node : Text) (t : Taker) (snapshot : S) :
    (t.take node snapshot).Only TakerCall := by
  refine ⟨trivial, fun now => (Prog.Only.each (fun location => ?_) _).bind fun _ => trivial⟩
  dsimp only
  split
  · exact takes_takeFrom _ _
  · trivial

/-- What a receiving node does keeps what holds of the drop box. -/
theorem kept_takes (i : ν) {β : Type} {op : DropOp β} (hop : TakerCall op) {b : β} (h : s.Kept)
    (hact : Acts op s b s') : s'.Kept ∧ Move ν (some i) s s' := by
  -- All but two of its calls move nothing at all.
  have hstill {t : Site} (ht : t = s) : t.Kept ∧ Move ν (some i) s t := by
    subst ht
    exact ⟨h, rfl, ⟨.file, [], []⟩, fun _ _ => rfl⟩
  cases op with
  | now => exact hstill hact
  | transport => exact hstill hact
  | receive => exact hstill hact.1
  | readToEnd => exact hstill hact
  | acknowledge => exact hstill hact
  | makeWon k =>
    obtain rfl : s' = _ := hact
    exact ⟨h.makeWon, rfl, k, fun k' hne => Function.update_of_ne hne _ _⟩
  | sign k name =>
    obtain rfl : s' = _ := hact
    refine ⟨h.sign name, ?_, k, fun k' hne => ?_⟩
    · unfold Site.sign
      split <;> rfl
    · unfold Site.sign
      split
      · exact Function.update_of_ne hne _ _
      · rfl
  | _ => exact absurd hop not_false

/-! ### The roll among the nodes -/

/-- The proof outline of the roll and the receiving nodes. -/
def outline (ν : Type) : Outline (Option ν) DropOp Site := .ofMoves acts Kept (Move ν)

/-- What the roll did stands while the nodes move. -/
theorem roll_stands (hrely : (outline ν).rely none s s') : s'.roll = s.roll := by
  refine Outline.ofMoves_stable (Q := fun t => t.roll = s.roll)
    (fun j t t' hne _ _ hmove hbefore => ?_) hrely rfl
  cases j with
  | none => exact absurd rfl hne
  | some i => exact hmove.1.trans hbefore

/-- A receiving node may do what it likes of what a node does. -/
theorem safe_takes (i : ν) {α : Type} {p : Prog DropOp α} (hp : p.Only TakerCall) (s : Site) :
    (outline ν).Safe (some i) (fun _ _ => True) p s := by
  -- A node's program is a tree of its calls, and each keeps what holds.
  induction p generalizing s with
  | pure a => exact fun _ _ _ => trivial
  | call op next ih =>
    intro t _ hkept b t' hact
    obtain ⟨hkept', hmove⟩ := kept_takes i hp.1 hkept hact
    exact ⟨hkept', hmove, ih b (hp.2 b) t'⟩

/-- The end of a program of the roll, where what is left to say is of what it did. -/
theorem safe_pure {α : Type} {a : α} (post : α → Roll → Prop) (h : post a s.roll) :
    (outline ν).Safe none (fun a t => post a t.roll) (Prog.pure a) s := by
  refine Outline.Safe.of_post h fun t hrely _ hpost => ?_
  rwa [roll_stands hrely]

/-- A call of the roll leads to what follows from what it has done then. -/
theorem safe_call {α β : Type} {op : DropOp β} {next : β → Prog DropOp α} {post : α → Site → Prop}
    (hnext : ∀ t b t', t.Kept → t.roll = s.roll → Acts op t b t' →
      t'.Kept ∧ Move ν none t t' ∧ (outline ν).Safe none post (next b) t') :
    (outline ν).Safe none post (.call op next) s :=
  fun t hrely hkept b t' hact => hnext t b t' hkept (roll_stands hrely) hact

/-- A call that moves nothing. -/
theorem safe_look {α β : Type} {op : DropOp β} {next : β → Prog DropOp α} {post : α → Site → Prop}
    (hop : ∀ t b t', Acts op t b t' → t' = t)
    (hnext : ∀ t b, t.Kept → t.roll = s.roll → Acts op t b t →
      (outline ν).Safe none post (next b) t) :
    (outline ν).Safe none post (.call op next) s := by
  apply safe_call
  intro t b t' hkept hroll hact
  obtain rfl := hop t b t' hact
  exact ⟨hkept, ⟨List.prefix_refl _, rfl⟩, hnext t' b hkept hroll hact⟩

/-! ### The roll's round -/

variable {parties : List Text} {r : Dropping} {p : Protocol} {now : Int} {j : Judged}
    {ahead ahead' : Key → Prop}

/-- What the roll does for itself, by a call of its own. -/
theorem move_roll {x : Roll} (hlog : s.roll.log <+: x.log) : Move ν none s { s with roll := x } :=
  ⟨hlog, rfl⟩

private theorem bursts_stands {α : Type} (of : α → Dropping) {round : Nat} {a : α}
    (h : Bursts parties round (of a) s.roll) (hrely : (outline ν).rely none s s') :
    Bursts parties round (of a) s'.roll := by
  rwa [roll_stands hrely]

/-- The end of a program, where the roll's side is of what it did. -/
theorem safe_bursts {α : Type} (of : α → Dropping) {round : Nat} {a : α}
    (h : Bursts parties round (of a) s.roll) :
    (outline ν).Safe none (fun a t => Bursts parties round (of a) t.roll) (Prog.pure a) s :=
  Outline.Safe.of_post h fun _ hrely _ h => bursts_stands of h hrely

private theorem safe_dropFile {round : Nat} {b : Bursting} {party : Text} (hparty : party ∈ parties)
    (one : Nat) (h : Bursts parties round b.1 s.roll) :
    (outline ν).Safe none (fun r t => Bursts parties round r.1.1 t.roll)
      (Dropping.dropFile p party round b one) s := by
  apply safe_call
  intro t answer t' hkept hroll hact
  rw [← hroll] at h
  -- recorded before it is dropped; dropping may fail, and then the record stands
  rcases hact with ⟨at_, rfl, rfl⟩ | ⟨why, rfl, rfl⟩
  · -- The file is of this round, and no file of this round is judged.
    have hnot : (⟨p, party, dropName round one⟩ : Key) ∉ t.roll.judged :=
      fun hin => h.fresh _ hin one rfl
    refine ⟨hkept.ofRoll (hkept.sound.record hnot h.reading at_) (fun _ hk => hk) (fun _ he => he),
      move_roll (List.prefix_refl _), ?_⟩
    have hnow : Bursts parties round b.1 (t.roll.record ⟨p, party, dropName round one⟩ at_) :=
      h.record hparty one at_
    apply safe_call
    intro u answer u' hkept hroll hact
    obtain rfl : u' = _ := hact
    refine ⟨hkept.ofRoll (hkept.sound.send _) (fun _ hk => hk) (fun _ he => he),
      move_roll (List.prefix_refl _), ?_⟩
    have hsent : Bursts parties round b.1 (u.roll.send ⟨p, party, dropName round one⟩) := by
      rw [hroll]
      exact ⟨⟨⟨hnow.reading, hnow.waiting, hnow.named⟩, hnow.passed, hnow.told⟩, hnow.now,
        hnow.fresh⟩
    cases answer with
    | ok _ => exact safe_bursts (fun (r : Bursting × Option Text) => r.1.1) hsent
    | error why => exact safe_bursts (fun (r : Bursting × Option Text) => r.1.1) hsent
  · -- the clock could not be read, and nothing is recorded
    exact ⟨hkept, ⟨List.prefix_refl _, rfl⟩,
      safe_bursts (fun (r : Bursting × Option Text) => r.1.1) h⟩

private theorem safe_sender {round : Nat} (party : Text) (h : Bursts parties round r s.roll) :
    (outline ν).Safe none (fun built t => Bursts parties round built.1 t.roll)
    (Dropping.sender p party r) s := by
  unfold Dropping.sender
  split
  · exact safe_bursts Prod.fst h
  · refine safe_look (fun t b t' hact => hact) fun t b hkept hroll hact => ?_
    rw [← hroll] at h
    rcases b with _ | _ | _
    · exact safe_bursts Prod.fst h
    · exact safe_bursts Prod.fst h
    · apply safe_bursts Prod.fst
      exact ⟨⟨⟨h.reading, h.waiting, h.named⟩, h.passed, h.told⟩, h.now, h.fresh⟩

private theorem safe_dropParty {round : Nat} {b : Bursting} {party : Text}
    (hparty : party ∈ parties) (h : Bursts parties round b.1 s.roll) :
    (outline ν).Safe none (fun r t => Bursts parties round r.1.1 t.roll)
      (Dropping.dropParty p round b party) s := by
  refine safe_look (fun t b t' hact => hact) fun t made hkept hroll hact => ?_
  rw [← hroll] at h
  cases made with
  | error why => exact safe_bursts (fun (r : Bursting × Option Text) => r.1.1) h
  | ok _ =>
    apply (safe_sender party h).bind hkept
    intro built u hkept hbuilt
    obtain ⟨r', stopped⟩ := built
    cases stopped with
    | some why => exact safe_bursts (fun (r : Bursting × Option Text) => r.1.1) hbuilt
    | none =>
      exact Outline.Safe.foldUntil (fun (b : Bursting) t => Bursts parties round b.1 t.roll)
        (fun b t t' h hrely _ => bursts_stands Prod.fst h hrely) _
        (fun one _ b t _ h => safe_dropFile hparty one h) (r', b.2) u hkept hbuilt

private theorem safe_dropBurst (h : Bursts parties r.round r s.roll) (hkept : s.Kept) :
    (outline ν).Safe none (fun dropped t => Bursts parties r.round dropped.2 t.roll)
      (r.dropBurst parties r.round) s := by
  have hstands (b : Bursting) (t t' : Site) (h : Bursts parties r.round b.1 t.roll)
      (hrely : (outline ν).rely none t t') (_ : t'.Kept) : Bursts parties r.round b.1 t'.roll :=
    bursts_stands Prod.fst h hrely
  -- Protocol by protocol, and in each Party by Party, until one stops.
  have hprotocol (p : Protocol) (b : Bursting) (t : Site) (hkept : t.Kept)
    (h : Bursts parties r.round b.1 t.roll) :
      (outline ν).Safe none (fun r' t => Bursts parties r.round r'.1.1 t.roll)
        (Dropping.dropProtocol parties r.round b p) t := by
    unfold Dropping.dropProtocol
    split
    · exact safe_bursts (fun (r : Bursting × Option Text) => r.1.1) h
    · exact Outline.Safe.foldUntil (fun (b : Bursting) t => Bursts parties r.round b.1 t.roll)
        hstands parties
        (fun party hparty b t _ h => safe_dropParty hparty h) b t hkept h
  have hall := Outline.Safe.foldUntil (O := outline ν) (i := none)
    (fun (b : Bursting) t => Bursts parties r.round b.1 t.roll) hstands PROTOCOLS
    (fun p _ b t hkept h => hprotocol p b t hkept h) (r, 0) s hkept h
  apply hall.bind hkept
  intro dropped t _ h
  obtain ⟨b, stopped⟩ := dropped
  cases stopped with
  | some why => exact safe_bursts Prod.snd h
  | none => exact safe_bursts Prod.snd h

private theorem safe_dropDue (h : Bursts parties r.round r s.roll) (hkept : s.Kept) :
    (outline ν).Safe none (fun dropped t => Calm parties dropped.2 t.roll) (r.dropDue parties)
      s := by
  unfold Dropping.dropDue
  split
  · exact (safe_dropBurst h hkept).mono fun dropped t _ h => h.toCalm
  · exact safe_pure (fun (dropped : Except Text Nat × Dropping) x => Calm parties dropped.2 x)
      h.toCalm

private theorem due_iff {t : Int} : Judged.due (some t) now = true ↔ t + GRACE ≤ now := by
  unfold Judged.due
  rw [decide_eq_true_iff]
  have hgrace : GRACE = 10000000000 := rfl
  omega

/-- **One file looked at**: judged where it is due, by who has signed it by then. -/
theorem safe_judgeFile {party file : Text} (h : Passing parties r p now ahead j s.roll)
    (hahead : ∀ k, ahead k → k = ⟨p, party, file⟩ ∨ ahead' k) :
    (outline ν).Safe none (fun j t => Passing parties r p now ahead' j t.roll)
      (Judged.judgeFile p party now j file) s := by
  refine safe_look (fun t b t' hact => hact.2) fun t recorded hkept hroll hact => ?_
  rw [← hroll] at h
  have hrecorded : recorded = t.roll.dropped ⟨p, party, file⟩ := hact.1
  change (outline ν).Safe none _ (if (!Judged.due recorded now) = true then _ else _) t
  by_cases hdue : Judged.due recorded now = true
  · rw [hdue, Bool.not_true, if_neg Bool.false_ne_true]
    -- Only a file that has a record is due.
    obtain ⟨at_, rfl⟩ : ∃ at_, recorded = some at_ := by
      cases recorded with
      | none => exact absurd hdue Bool.false_ne_true
      | some at_ => exact ⟨at_, rfl⟩
    have hdropped := hrecorded.symm
    have hnot := h.waiting _ at_ hdropped
    -- Its signatures are read: between the look at its record and now a node may have signed it,
    -- and that counts.
    apply safe_call
    intro u answer u' hkept hu hact
    rw [← hu] at h hdropped hnot
    obtain ⟨hperm, rfl⟩ := hact
    set names := Judged.namesOf answer with hnames
    have htimely := h.timely hkept.sound rfl hdropped (due_iff.mp hdue) names u.signs.length
    refine ⟨hkept.winners hnot hperm htimely, move_roll (List.prefix_refl _), ?_⟩
    apply safe_call
    intro v _ v' hkept hv hact
    obtain rfl : v' = _ := hact
    -- It is judged by what was read, whatever was signed since.
    have hreading : v.roll.reading = some ⟨⟨p, party, file⟩, names, (u.roll.nows p).length - 1,
      u.signs.length⟩ := by
      rw [hv]
      rfl
    have htold : j = v.roll.told p := by
      rw [hv]
      exact h.judged
    have hsound := hkept.sound.judge hreading
    rw [← htold] at hsound
    refine ⟨hkept.ofRoll hsound ?_ ?_, move_roll (List.prefix_append _ _), ?_⟩
    · intro k hk
      unfold Roll.judged at hk ⊢
      exact List.map_subset _ (List.subset_append_left _ _) hk
    · intro e he
      change e ∈ v.roll.log ++ v.roll.reading.toList ++ [] at he
      rwa [List.append_nil] at he
    apply safe_call
    intro w _ w' hkept hw hact
    obtain rfl : w' = _ := hact
    -- Its record goes, so no later pass finds it.
    have hclosed := h.closed rfl hahead names u.signs.length
      (j.add (Key.named ⟨p, party, file⟩) names)
    have hrollw : w.roll.remove ⟨p, party, file⟩ =
        u.roll.closed ⟨p, party, file⟩ names u.signs.length
          (j.add (Key.named ⟨p, party, file⟩) names) := by
      rw [hw, hv]
      rfl
    have hin : (⟨p, party, file⟩ : Key) ∈ w.roll.judged := by
      rw [hw]
      change _ ∈ (v.roll.log ++ v.roll.reading.toList).map Judgement.key
      rw [hreading, List.map_append]
      exact List.mem_append_right _ List.mem_cons_self
    refine ⟨hkept.ofRoll (hkept.sound.remove hin) (fun _ hk => hk) (fun _ he => he),
      move_roll (List.prefix_refl _), ?_⟩
    rw [← hrollw] at hclosed
    -- Its signatures go last, as it is judged by then.
    apply safe_call
    intro y _ y' hkept hy hact
    obtain ⟨rest, rfl, hrest⟩ := hact
    refine ⟨hkept.removeWon ?_ hrest, ⟨List.prefix_refl _, rfl⟩, ?_⟩
    · rw [hy]
      exact hin
    · apply safe_pure (fun j x => Passing parties r p now ahead' j x)
      change Passing parties r p now ahead' _ y.roll
      rwa [hy]
  · rw [Bool.not_eq_true] at hdue
    rw [hdue, Bool.not_false, if_pos rfl]
    refine safe_pure (fun j x => Passing parties r p now ahead' j x)
      (h.imp fun k at_ _ hdropped hin => ?_)
    -- It is looked at no more in this pass as it is within its grace.
    rcases hahead k hin with rfl | hin
    · rw [hrecorded, hdropped] at hdue
      have hwithin := due_iff.not.mp (Bool.eq_false_iff.mp hdue)
      exact .inl (by omega)
    · exact .inr hin

/-- One Party's files judged, each that is due. -/
theorem safe_judgeParty {party : Text} {todo : List Text}
    (h : Passing parties r p now (fun k => k.party ∈ party :: todo) j s.roll) :
    (outline ν).Safe none (fun j t => Passing parties r p now (fun k => k.party ∈ todo) j t.roll)
      (Judged.judgeParty p now j party) s := by
  refine safe_look (fun t b t' hact => hact.1) fun t listed hkept hroll hact => ?_
  rw [← hroll] at h
  have hlisted := hact.2
  cases listed with
  | error why =>
    -- No directory of records, so nothing recorded is of this Party.
    apply safe_pure (fun j x => Passing parties r p now (fun k => k.party ∈ todo) j x)
    refine h.imp fun k t' hk hdropped hin => .inr ((List.mem_cons.mp hin).resolve_left ?_)
    rintro rfl
    subst hk
    rw [hlisted k.file] at hdropped
    cases hdropped
  | ok files =>
    -- What is ahead: the files listed, and the Parties after this one.
    have hstart : Passing parties r p now
        (fun k => k.party ∈ todo ∨ ∃ file ∈ files, k = ⟨p, party, file⟩) j t.roll := by
      refine h.imp fun k t' hk hdropped hin => .inr ?_
      rcases List.mem_cons.mp hin with rfl | hin
      · subst hk
        exact .inr ⟨k.file, (hlisted k.file).mpr (Option.isSome_iff_exists.mpr ⟨t', hdropped⟩), rfl⟩
      · exact .inl hin
    refine (Outline.Safe.foldlM (O := outline ν) (i := none)
      (fun files j t => Passing parties r p now
        (fun k => k.party ∈ todo ∨ ∃ file ∈ files, k = ⟨p, party, file⟩) j t.roll)
      (fun files j t t' h hrely _ => by rwa [roll_stands hrely])
      (fun file files j t _ h => safe_judgeFile h fun k hk => ?_) files j t hkept hstart).mono ?_
    · rcases hk with hin | ⟨one, hone, rfl⟩
      · exact .inr (.inl hin)
      · rcases List.mem_cons.mp hone with rfl | hone
        · exact .inl rfl
        · exact .inr (.inr ⟨one, hone, rfl⟩)
    · intro j' u _ h
      refine h.imp fun k t' _ _ hin => .inr (hin.resolve_right ?_)
      rintro ⟨file, hfile, -⟩
      cases hfile

/-- **One pass** of the judgement over a protocol. -/
theorem safe_judgeProtocol (p : Protocol) (hkept : s.Kept) (h : Calm parties r s.roll) :
    (outline ν).Safe none (fun r t => Calm parties r t.roll) (Dropping.judgeProtocol parties r p)
      s := by
  -- a pass over one protocol: its instant is taken, then each Party's files are judged
  have hpass : (outline ν).Safe none
      (fun j t => Calm parties { r with judged := Function.update r.judged p j } t.roll)
      ((r.judged p).judge p parties) s := by
    apply safe_call
    intro t now t' hkept hroll hact
    obtain rfl : t' = _ := hact
    rw [← hroll] at h
    have hsound := hkept.sound.pass (p := p) now fun k _ => h.passed k
    have hkept' := hkept.ofRoll hsound (fun _ hk => hk) (fun _ he => he)
    refine ⟨hkept', move_roll (List.prefix_refl _), ?_⟩
    -- the invariant of the loop: only the files of the Parties still to do wait
    refine (Outline.Safe.foldlM (O := outline ν) (i := none)
      (fun todo j t => Passing parties r p now (fun k => k.party ∈ todo) j t.roll)
      (fun todo j t t' h hrely _ => by rwa [roll_stands hrely])
      (fun party todo j t _ h => safe_judgeParty h) parties (r.judged p) _ hkept'
      (h.passing hkept.sound p now)).mono fun j u hkept h => ?_
    -- no Party is left to do, so none of the pass is
    exact Passing.calm (h.imp fun k t _ _ hin => absurd hin List.not_mem_nil) hkept.sound
  apply hpass.bind hkept
  intro j t _ h
  exact safe_pure (fun r x => Calm parties r x) h

/-- **One round** of the roll: bursts dropped, then a pass over every protocol. -/
theorem safe_round {S : Type} [Snapshot S] (root : Text) (snapshot : S)
    (h : Calm parties r s.roll) :
    (outline ν).Safe none (fun res t => Calm parties res.2 t.roll)
      (r.roundOf parties root snapshot : Prog DropOp (S × Dropping)) s := by
  refine safe_look (fun t b t' hact => hact) fun t now hkept hroll hact => ?_
  rw [← hroll] at h
  apply (safe_dropDue (h.bursts hkept.sound) hkept).bind hkept
  intro dropped u hkept h
  have hall := Outline.Safe.foldlM (O := outline ν) (i := none)
    (fun (_ : List Protocol) r t => Calm parties r t.roll)
    (fun _ r t t' h hrely _ => by rwa [roll_stands hrely])
    (fun p _ r t hkept h => safe_judgeProtocol p hkept h) PROTOCOLS dropped.2 u hkept h
  apply hall.bind hkept
  intro r' v _ h
  exact safe_pure (fun (res : S × Dropping) x => Calm parties res.2 x) h

/-! ### Every run -/

section Run

variable (S : Type) [Snapshot S] (parties : List Text) (root : Text) (name node : ν → Text)

/-- One round of the roll. -/
def rollTurn (r : Dropping) : Prog DropOp (S × (Dropping ⊕ Taker)) := do
  let res ← r.roundOf parties root Snapshot.new
  pure (res.1, .inl res.2)

/-- One round of a receiving node. -/
def takerTurn (i : ν) (t : Taker) : Prog DropOp (S × (Dropping ⊕ Taker)) := do
  let res ← t.take (node i) Snapshot.new
  pure (res.1, .inr res.2)

/-- What the roll runs, and what each receiving node does. -/
def threads : Option ν → Prog DropOp (S × (Dropping ⊕ Taker))
  | none => do
    let r ← Dropping.new
    rollTurn S parties root r
  | some i => takerTurn S node i (.new (name i) parties)

/-- Round after round. -/
def again : Option ν → S × (Dropping ⊕ Taker) → Option (Prog DropOp (S × (Dropping ⊕ Taker)))
  | none, (_, .inl r) => some (rollTurn S parties root r)
  | some i, (_, .inr t) => some (takerTurn S node i t)
  | _, _ => none

/-- A drop box nothing was dropped into. -/
def empty : Site :=
  ⟨⟨fun _ => false, fun _ => none, fun _ => none, fun _ => [], none, [], fun _ => .default⟩,
    fun _ => none, []⟩

/-- The roll and the receiving nodes before any has moved. -/
def begun : Config (Option ν) DropOp (S × (Dropping ⊕ Taker)) Site :=
  ⟨empty, threads S parties root name node⟩

/-- What a thread's end says: the roll stands between two rounds. -/
def ended : Option ν → S × (Dropping ⊕ Taker) → Site → Prop
  | none, (_, .inl r), t => Calm parties r t.roll
  | none, (_, .inr _), _ => False
  | some _, _, _ => True

variable {S parties root name node}

private theorem safe_rollTurn (hkept : s.Kept) (h : Calm parties r s.roll) :
    (outline ν).Safe none (ended S parties (none : Option ν)) (rollTurn S parties root r) s := by
  apply (safe_round root Snapshot.new h).bind hkept
  intro res t _ h
  exact fun u hrely _ => by
    change Calm parties res.2 u.roll
    rwa [roll_stands hrely]

private theorem takes_takerTurn (i : ν) (t : Taker) : (takerTurn S node i t).Only TakerCall :=
  (takes_take (node i) t Snapshot.new).bind fun _ => trivial

private theorem kept_empty : empty.Kept where
  sound :=
    ⟨fun _ _ _ h => absurd h.symm (Option.some_ne_none _),
      fun _ _ h => absurd h.symm (Option.some_ne_none _),
    fun _ _ _ h => absurd h.symm (Option.some_ne_none _), fun _ _ _ h =>
      absurd h.symm (Option.some_ne_none _),
    List.nodup_nil, fun _ h => absurd h List.not_mem_nil, fun _ h =>
      absurd h.symm (Option.some_ne_none _),
    fun _ => rfl⟩
  nodup _ := List.nodup_nil
  kept _ _ _ := iff_of_false List.not_mem_nil List.not_mem_nil
  signed _ h := absurd h List.not_mem_nil

private theorem calm_empty (farEnds : Except Text Unit) :
    Calm parties ⟨farEnds, [], fun _ => .default, 0⟩ empty.roll where
  reading := rfl
  waiting _ _ h := absurd h.symm (Option.some_ne_none _)
  named _ h := absurd h Bool.false_ne_true
  passed _ _ _ h := absurd h.symm (Option.some_ne_none _)
  told _ := rfl

private theorem holds_begun :
    (outline ν).Holds (ended S parties) (begun S parties root name node) := by
  refine ⟨kept_empty, fun i => ?_⟩
  cases i with
  | none =>
    refine safe_look (fun t b t' hact => hact) fun t farEnds hkept hroll hact =>
      safe_rollTurn hkept ?_
    rw [hroll]
    exact calm_empty farEnds
  | some i => exact (safe_takes i (takes_takerTurn i _) _).mono fun _ _ _ _ => trivial

private theorem safe_again (i : Option ν) (res : S × (Dropping ⊕ Taker))
    (p : Prog DropOp (S × (Dropping ⊕ Taker))) (s : Site) (hkept : s.Kept)
    (hended : ended S parties i res s) (hagain : again S parties root node i res = some p) :
    (outline ν).Safe i (ended S parties i) p s := by
  obtain ⟨snapshot, side⟩ := res
  rcases i with _ | i
  · rcases side with r | t
    · obtain rfl := Option.some.inj hagain
      exact safe_rollTurn hkept hended
    · exact absurd hended not_false
  · rcases side with r | t
    · cases hagain
    · obtain rfl := Option.some.inj hagain
      exact (safe_takes i (takes_takerTurn i _) _).mono fun _ _ _ _ => trivial

variable [DecidableEq ν]

/-- What was judged stays so, whatever moves. -/
theorem log_grows {c c' : Config (Option ν) DropOp (S × (Dropping ⊕ Taker)) Site}
    (h : (outline ν).Holds (ended S parties) c)
    (hsteps : Steps acts (again S parties root node) c c') :
    c.shared.roll.log <+: c'.shared.roll.log := by
  -- Each step is one of the outline's moves, and none takes a judgement back.
  have hpath := (h.guaranteed (fun i res p s => safe_again i res p s) hsteps).1
  generalize c'.shared = u at hpath
  induction hpath with
  | refl => exact List.prefix_refl _
  | tail _ hmove ih =>
    obtain ⟨i, -, -, hmove⟩ := hmove
    cases i with
    | none => exact ih.trans hmove.1
    | some i => exact ih.trans (hmove.1 ▸ List.prefix_refl _)

/-- **Every dropped file is judged once**, in the first pass that finds its grace over, for any
Parties, any number of receiving nodes and any interleaving of their calls. At any time: no file was
judged twice; each was judged in the first pass, of those begun after it was dropped, in which its
grace had passed; a file dropped and not judged was due in no pass but perhaps the last begun, and
in none at all where the roll has ended its round; the judgement of each protocol adds up, and held
just where each of its files had one signer; the names a file was judged by are of the signatures of
that file made by then; and a judgement stands whatever follows. -/
theorem judged_once {c : Config (Option ν) DropOp (S × (Dropping ⊕ Taker)) Site}
    (hsteps : Steps acts (again S parties root node) (begun S parties root name node) c) :
    c.shared.roll.judged.Nodup ∧ (∀ e ∈ c.shared.roll.log, c.shared.roll.Timely e) ∧
      (∀ k, c.shared.roll.Waits k ((c.shared.roll.nows k.protocol).length - 1)) ∧
      (∀ res, c.prog none = .pure res →
        ∀ k, c.shared.roll.Waits k (c.shared.roll.nows k.protocol).length) ∧
      (∀ p, (c.shared.roll.told p).Accounts
        (c.shared.roll.log.filter fun e => e.key.protocol = p)) ∧
      (∀ p, (c.shared.roll.told p).held = true ↔
        ∀ e ∈ c.shared.roll.log, e.key.protocol = p → ∃ winner, e.winners = [winner]) ∧
      (∀ e ∈ c.shared.roll.log, c.shared.Signed e) ∧
      ∀ c', Steps acts (again S parties root node) c c' →
      c.shared.roll.log <+: c'.shared.roll.log := by
  have hbegun : (outline ν).Holds (ended S parties) (begun S parties root name node) := holds_begun
  -- what holds at the start is kept by every round and every taker's turn
  have hholds := hbegun.steps (fun i res p s => safe_again i res p s) hsteps
  have hkept : c.shared.Kept := hholds.inv
  have haccounts (p : Protocol) :
      (c.shared.roll.told p).Accounts (c.shared.roll.log.filter fun e => e.key.protocol = p) := by
    rw [hkept.sound.told p]
    exact accounts_tally _
  refine ⟨hkept.sound.once, fun e he => hkept.sound.timely e (List.mem_append_left _ he),
    hkept.sound.waits, fun res hres k => ?_, haccounts, fun p => ?_,
    fun e he => hkept.signed e (List.mem_append_left _ he), fun c' hsteps' =>
    log_grows hholds hsteps'⟩
  · -- a run at its end has a calm roll, where every file due is judged
    have hended := hholds.ended hres
    obtain ⟨snapshot, side⟩ := res
    cases side with
    | inl r => exact Calm.passed hended k
    | inr t => exact absurd hended not_false
  · -- the counts say one node each just where each judgement does
    rw [(haccounts p).held_iff]
    constructor
    · intro hone e he hp
      exact hone e (List.mem_filter.mpr ⟨he, decide_eq_true hp⟩)
    · intro hone e he
      exact hone e (List.mem_filter.mp he).1
        (of_decide_eq_true (List.mem_filter.mp he).2)

end Run

/-! ### One file dropped, taken by one node, and judged -/

section OneFile

/-- The first file of the first round, by the Party called P. -/
def oneKey : Key := ⟨.file, ['P'], dropName 1 0⟩

/-- The drop box where the file was recorded and handed over. -/
def oneSent : Site := { empty with roll := (empty.roll.record oneKey 0).send oneKey }

/-- A node has accepted it and signed it. -/
def oneSigned : Site := (oneSent.setWon oneKey (some [])).sign oneKey ['n']

/-- A pass over its protocol has begun. -/
def onePassed : Site := { oneSigned with roll := oneSigned.roll.pass .file GRACE }

/-- The file judged, by the one signature there is. -/
def oneJudged : Site :=
  { onePassed with
    roll := (onePassed.roll.read oneKey [['n']] 1).judge .file
      (Judged.default.add oneKey.named [['n']]) }

private theorem steps_oneJudged :
    ∃ rest, Steps acts (again Records [['P']] ['r'] fun _ : Unit => ['n'])
    (begun Records [['P']] ['r'] (fun _ : Unit => ['n']) fun _ => ['n']) ⟨oneJudged, rest⟩ := by
  have hsent : ∀ origin ∈ [dropName 1 0],
      oneSent.roll.sent ⟨.file, ['P'], fileOf origin⟩ = true := by decide
  have htakes : (threads Records [['P']] ['r'] (fun _ : Unit => ['n']) (fun _ => ['n'])
      (some ())).Leads acts (some ()) oneSent _ oneSigned :=
    .call (b := 0) rfl (.call (b := some (.ok ())) rfl
      (.call (b := .ok [dropName 1 0]) ⟨rfl, fun _ h => Except.ok.inj h ▸ hsent⟩
        (.call (b := true) rfl (.call (b := true) rfl (.call (b := ()) rfl
          (.call (b := ()) rfl .refl))))))
  have hlisted : Acts (.records .file ['P']) onePassed (.ok [dropName 1 0]) onePassed := by
    refine ⟨rfl, fun file => ?_⟩
    change _ ↔
      (Function.update (fun _ => none) oneKey (some (0 : Int)) ⟨.file, ['P'], file⟩).isSome = true
    rw [List.mem_singleton]
    by_cases hfile : file = dropName 1 0
    · subst hfile
      apply iff_of_true rfl
      rw [show (⟨.file, ['P'], dropName 1 0⟩ : Key) = oneKey from rfl, Function.update_self]
      rfl
    · apply iff_of_false hfile
      rw [Function.update_of_ne fun hkey => hfile (congrArg Key.file hkey)]
      exact Bool.false_ne_true
  have hread : Acts (.winners oneKey) onePassed (.ok [['n']])
      { onePassed with roll := onePassed.roll.read oneKey [['n']] 1 } :=
    ⟨List.Perm.refl _, rfl⟩
  -- The sending is answered with an error though the file was handed over, and the burst ends.
  obtain ⟨q, q', hdrops, hjudges⟩ : ∃ q q',
      (threads Records [['P']] ['r'] (fun _ : Unit => ['n']) (fun _ => ['n']) none).Leads acts
        (none : Option Unit) empty q oneSent ∧
      q.Leads acts (none : Option Unit) oneSigned q' oneJudged :=
    ⟨_, _, .call (b := .ok ()) rfl (.call (b := 0) rfl (.call (b := .ok ()) rfl
      (.call (b := some (.ok ())) rfl (.call (.inl ⟨0, rfl, rfl⟩)
        (.call (b := .error ['x']) rfl .refl))))),
      .call (b := GRACE) rfl (.call hlisted (.call ⟨rfl, rfl⟩ (.call hread
        (.call (b := ()) rfl .refl))))⟩
  have htaken := (hdrops.steps (again Records [['P']] ['r'] fun _ : Unit => ['n']) rfl).trans
    (htakes.steps _ rfl)
  exact ⟨_, htaken.trans (hjudges.steps _ rfl)⟩

/-- The file is judged once, by the node that signed it. -/
theorem judged_once_one : ∃ rest,
    Steps acts (again Records [['P']] ['r'] fun _ : Unit => ['n'])
      (begun Records [['P']] ['r'] (fun _ : Unit => ['n']) fun _ => ['n']) ⟨oneJudged, rest⟩ ∧
    oneJudged.roll.judged.Nodup ∧ (oneJudged.roll.told .file).files = 1 ∧
    (oneJudged.roll.told .file).held = true ∧ ∀ e ∈ oneJudged.roll.log, oneJudged.Signed e := by
  obtain ⟨rest, hsteps⟩ := steps_oneJudged
  obtain ⟨honce, -, -, -, haccounts, hheld, hsigned, -⟩ := judged_once hsteps
  refine ⟨rest, hsteps, honce, (haccounts .file).files, (hheld .file).mpr fun e he _ => ?_, hsigned⟩
  obtain rfl := List.mem_singleton.mp he
  exact ⟨['n'], rfl⟩

end OneFile

end Site

end DropBox

end XmipEssentials
