import Mathlib.Algebra.BigOperators.Group.Finset.Basic
import Mathlib.Data.Fintype.Basic
import XmipEssentials.Lib.Files
import XmipEssentials.Lib.Prog
import XmipEssentials.Records
import XmipEssentials.Standing

/-!
# The daily backlog

Node processes drop files into one directory and drain it, each round as many as it has capacity
for, and raise that capacity where their share of what is left climbs. A drain works from a listing
that the others are emptying and filling as it goes: what it reads of the directory may be any names
at all, and a file another process removed first does not count.

The directory is watched (`Yard`): what arrived in it, what arrived on top of a file already there,
and what each process tried, took and may take. Every move of a process keeps `Kept`, and moves
nothing of the others' (`Move`).
-/

namespace XmipEssentials

open Text Conc Files

/-! ### The test -/

/-- Files that arrive each round. -/
def ARRIVAL : Nat := 30

/-- Files one reader clears per round. -/
def PER_READER : Nat := 5

/-- Readers per node before and after the tweak. -/
def BASE_READERS : Nat := 2
def TWEAK_READERS : Nat := 4

/-- Backlog share at which each remedy kicks in, and the depth that is a breach. -/
def TWEAK_AT : Nat := 35
def SCALE_AT : Nat := 55
def CEILING : Nat := 150

/-- A call of a drain, by what it answers. -/
inductive BacklogOp : Type → Type 1 where
  | file {β : Type} (op : FileOp Unit UInt8 β) : BacklogOp (Except Text β)
  /-- The time, in nanoseconds since the epoch. -/
  | now : BacklogOp Int
  /-- No call at all: a drain of so many files at most begins. -/
  | drains (capacity : Nat) : BacklogOp Unit

/-- A day's drain over the directory other processes feed and drain too. -/
structure DailyBacklog where
  node : Text
  /-- The process's id. -/
  tag : Nat
  round : Nat
  seq : Nat
  backlog : Nat
  feeders : Nat
  previous : Nat
  drained : Nat
  readers : Nat
  nodes : Nat
  tweaked : Bool
  scaled : Bool
  action : Text
  standing : Standing

/-- What a file a process fed is called. -/
def arrivalName (tag seq : Nat) : Text := "daily_".toList ++ decimal tag ++ '_' :: padded 8 seq

/-- The tag of the process that fed the file, where its name holds one. -/
def feederOf (name : Text) : Option Text :=
  if "daily_".toList <+: name then some ((name.drop 6).takeWhile (· ≠ '_')) else none

/-- Remove so many of the files listed, and count them. A file another process removed first does
not count; the next one is taken. -/
def drainListed (capacity : Nat) : List Text → Nat → Prog BacklogOp Nat
  | [], processed => pure processed
  | name :: rest, processed => do
    if capacity ≤ processed then pure processed
    else
      match ← Prog.perform (.file (.remove () name)) with
      | .ok _ => drainListed capacity rest (processed + 1)
      | .error _ => drainListed capacity rest processed

/-- Remove up to `capacity` files, and count them. -/
def drain (capacity : Nat) : Prog BacklogOp Nat := do
  Prog.perform (.drains capacity)
  match ← Prog.perform (.file (.list ())) with
  | .ok names => drainListed capacity names 0
  | .error _ => pure 0

/-- The backlog: how many files wait, and how many processes fed them. -/
def measure : Prog BacklogOp (Nat × Nat) := do
  match ← Prog.perform (.file (.list ())) with
  | .ok names => pure (names.length, (names.filterMap feederOf).dedup.length)
  | .error _ => pure (0, 0)

namespace DailyBacklog

/-- A drain over the directory. Nothing already in it is touched. -/
def shared (node : Text) (tag : Nat) : Prog BacklogOp DailyBacklog := do
  let _ ← Prog.perform (.file (.makeDir ()))
  pure {
    node, tag, round := 0, seq := 0, backlog := 0, feeders := 1, previous := 0, drained := 0
    readers := BASE_READERS, nodes := 1, tweaked := false, scaled := false, action := [],
    standing := .default }

/-- Files dropped one after another, each named for the process that fed it. -/
def arrive : Nat → DailyBacklog → Prog BacklogOp DailyBacklog
  | 0, r => pure r
  | count + 1, r => do
    let r := { r with seq := r.seq + 1 }
    let path := arrivalName r.tag r.seq
    match ← Prog.perform (.file (.create () path)) with
    | .ok _ =>
      let _ ← Prog.perform (.file (.write () path (utf8 ['x'])))
      arrive count r
    | .error _ => arrive count r

/-- Raise concurrency first; add a node only if the tweak was not enough. -/
def escalate (r : DailyBacklog) (share : Nat) : DailyBacklog :=
  if !r.tweaked ∧ TWEAK_AT < share then
    { r with
      readers := TWEAK_READERS, tweaked := true
      action := " — raised concurrency (tweak)".toList }
  else if r.tweaked ∧ !r.scaled ∧ SCALE_AT < share then
    { r with nodes := r.nodes + 1, scaled := true, action := " — added a node".toList }
  else r

/-- The line of a round, and how it went. -/
def judged (r : DailyBacklog) (share processed capacity : Nat) : DailyBacklog :=
  let mark := if CEILING < share then Mark.fail else if r.previous < share then .warn else .pass
  let config := decimal r.nodes ++ " node(s) x ".toList ++ decimal r.readers ++ " readers".toList
  let feeders :=
    if 1 < r.feeders then
      " over ".toList ++ decimal r.feeders ++ " feeders, ".toList ++ decimal share ++ " each".toList
    else []
  let evidence := "backlog ".toList ++ decimal r.backlog ++ feeders ++ " (".toList ++
    decimal processed ++ "/round, capacity ".toList ++ decimal capacity ++ ", ".toList ++ config ++
      ")".toList ++ r.action
  { r with standing := r.standing.record mark evidence, previous := share }

variable {S : Type} [Snapshot S]

/-- What a round publishes. -/
def published (r : DailyBacklog) (now : Int) : S :=
  let snapshot := Snapshot.recordHealth (r.standing.health (r.node ++ "/drain".toList) now)
    Snapshot.new
  let snapshot := Snapshot.recordCount ⟨r.node, .streams, r.drained, now, now, now⟩ snapshot
  Snapshot.recordCount ⟨r.node, .messages, r.backlog, now, now, now⟩ snapshot

/-- One round: arrivals land, the current capacity drains what it can, the backlog is measured, and
the test escalates if it is falling behind. -/
def tick (r : DailyBacklog) : Prog BacklogOp (S × DailyBacklog) := do
  let now ← Prog.perform .now
  let r ← arrive ARRIVAL { r with round := r.round + 1 }
  let capacity := r.nodes * r.readers * PER_READER
  let processed ← drain capacity
  let measured ← measure
  let r := { r with drained := r.drained + processed, backlog := measured.1, feeders := measured.2 }
  let share := r.backlog / max r.feeders 1
  let r := (r.escalate share).judged share processed capacity
  pure (r.published now, r)

end DailyBacklog

/-! ### The directory watched -/

/-- What a process did to the directory: the arrivals it tried, the files it took, how many a drain
of its may take, and how many of them its last drain took. -/
structure Feeder where
  tried : Nat
  taken : Nat
  capacity : Nat
  inRound : Nat
  deriving DecidableEq, Repr

namespace Feeder

/-- An arrival tried. -/
def attempt (f : Feeder) : Feeder := { f with tried := f.tried + 1 }

/-- So many files taken. -/
def take (f : Feeder) (count : Nat) : Feeder :=
  { f with taken := f.taken + count, inRound := f.inRound + count }

/-- A drain begun. -/
def drains (f : Feeder) (capacity : Nat) : Feeder := { f with capacity := capacity, inRound := 0 }

/-- So many files taken since a drain began. -/
def drew (f : Feeder) (count : Nat) : Feeder :=
  { f with taken := f.taken + count, inRound := count }

end Feeder

/-- The directory, what arrived in it, and how many arrivals were written over a file already
there. -/
structure Yard (ι : Type) where
  store : Store Unit UInt8
  arrived : Nat
  overwritten : Nat
  of : ι → Feeder

namespace Yard

variable {ι : Type}

/-- A directory nothing has arrived in since it was first watched. -/
def start (store : Store Unit UInt8) : Yard ι := ⟨store, 0, 0, fun _ => ⟨0, 0, 0, 0⟩⟩

/-- How many files wait. -/
def left (s : Yard ι) : Nat := s.store.count ()

/-- One where the call was done. -/
def done : Except Text Unit → Nat
  | .ok _ => 1
  | .error _ => 0

variable [DecidableEq ι]

/-- What a call of a process does. A call may fail for reasons of its own, and a listing, read entry
by entry while others move, may answer any names at all. -/
def Acts (i : ι) : {β : Type} → BacklogOp β → Yard ι → β → Yard ι → Prop
  | _, .file (.list _), s, _, s' => s' = s
  | _, .file (.create d name), s, b, s' =>
    ∃ store, (FileOp.create d name).May True s.store b store ∧
      s' = { s with
        store, arrived := s.arrived + done b
        overwritten := if (s.store.file d name).isSome then s.overwritten + done b
          else s.overwritten
        of := Function.update s.of i (s.of i).attempt }
  | _, .file (.remove d name), s, b, s' =>
    ∃ store, (FileOp.remove d name).May True s.store b store ∧
      s' = { s with
        store
        of := Function.update s.of i ((s.of i).take (done b)) }
  | _, .file op, s, b, s' => ∃ store, op.May True s.store b store ∧ s' = { s with store }
  | _, .now, s, _, s' => s' = s
  | _, .drains capacity, s, _, s' =>
    s' = { s with of := Function.update s.of i ((s.of i).drains capacity) }

def acts : Exec ι BacklogOp (Yard ι) := fun i _ op s b s' => Acts i op s b s'

/-- What holds of the directory, whoever moves: no file was taken or came that is not counted, no
arrival was written over another file, none is there that was not tried yet, and no drain took more
than it may. -/
structure Kept [Fintype ι] (tag : ι → Nat) (before : Nat) (s : Yard ι) : Prop where
  conserved : ∑ i, (s.of i).taken + s.left = before + s.arrived
  apart : s.overwritten = 0
  fresh : ∀ i seq, (s.of i).tried < seq → s.store.file () (arrivalName (tag i) seq) = none
  bounded : ∀ i, (s.of i).inRound ≤ (s.of i).capacity

/-- A process moves nothing of the others'. -/
def Move (i : ι) (s s' : Yard ι) : Prop := ∀ j, j ≠ i → s'.of j = s.of j

variable {i : ι} {s s' : Yard ι} {tag : ι → Nat} {before : Nat}

/-- Names of arrivals tell the process and its count apart. -/
theorem arrivalName_inj {tag tag' seq seq' : Nat}
    (h : arrivalName tag seq = arrivalName tag' seq') :
    tag = tag' ∧ seq = seq' := by
  have hplain (n : Nat) : '_' ∉ decimal n := fun hmem => absurd (decimal_isDigit hmem) (by decide)
  unfold arrivalName at h
  rw [List.append_assoc, List.append_assoc, List.append_cancel_left_eq] at h
  have hsplit := congrArg (splitOnce ['_']) h
  rw [List.append_cons, List.append_cons (decimal tag'), splitOnce_append (hplain tag),
    splitOnce_append (hplain tag')] at hsplit
  obtain ⟨htag, hseq⟩ := Prod.mk.inj (Option.some.inj hsplit)
  exact ⟨decimal_injective htag, padded_injective hseq⟩

private theorem sum_update [Fintype ι] (f : ι → Feeder) (i : ι) {x : Feeder} {count : Nat}
    (hx : x.taken = (f i).taken + count) :
    ∑ j, (Function.update f i x j).taken = ∑ j, (f j).taken + count := by
  have hrest : ∑ j ∈ Finset.univ.erase i, (Function.update f i x j).taken =
      ∑ j ∈ Finset.univ.erase i, (f j).taken :=
    Finset.sum_congr rfl fun j hj => by rw [Function.update_of_ne (Finset.ne_of_mem_erase hj)]
  calc ∑ j, (Function.update f i x j).taken
      = x.taken + ∑ j ∈ Finset.univ.erase i, (f j).taken := by
        rw [← Finset.add_sum_erase Finset.univ _ (Finset.mem_univ i), hrest, Function.update_self]
    _ = (f i).taken + ∑ j ∈ Finset.univ.erase i, (f j).taken + count := by
        rw [hx, Nat.add_right_comm]
    _ = ∑ j, (f j).taken + count := by
        rw [Finset.add_sum_erase Finset.univ (fun j => (f j).taken) (Finset.mem_univ i)]

private theorem move_update (x : Feeder) (h : s'.of = Function.update s.of i x) : Move i s s' := by
  intro j hne
  rw [h, Function.update_of_ne hne]

/-! ### What each call keeps -/

variable [Fintype ι]

/-- What a process did is kept where the files, the arrivals and what it took add up, it took no
more than it may, and no file came that was not tried. -/
theorem Kept.update (h : Kept tag before s) {x : Feeder} {store : Store Unit UInt8} {arrived : Nat}
    (count : Nat) (htaken : x.taken = (s.of i).taken + count)
    (hcount : count + store.count () + s.arrived = s.left + arrived)
    (hbounded : x.inRound ≤ x.capacity) (htried : (s.of i).tried ≤ x.tried)
    (hfresh : ∀ j seq, (Function.update s.of i x j).tried < seq →
      s.store.file () (arrivalName (tag j) seq) = none →
      store.file () (arrivalName (tag j) seq) = none) :
    Kept tag before ⟨store, arrived, 0, Function.update s.of i x⟩ := by
  have hconserved := h.conserved
  have hsum := sum_update s.of i htaken
  -- What others have still to create is as free as before; what this one has, it has tried less of.
  refine ⟨?_, rfl, fun j seq hlt => hfresh j seq hlt (h.fresh j seq ?_), fun j => ?_⟩
  · change ∑ j, (Function.update s.of i x j).taken + store.count () = before + arrived
    omega
  · by_cases hj : j = i
    · subst hj
      change (Function.update s.of j x j).tried < seq at hlt
      rw [Function.update_self] at hlt
      omega
    · change (Function.update s.of i x j).tried < seq at hlt
      rwa [Function.update_of_ne hj] at hlt
  · change (Function.update s.of i x j).inRound ≤ (Function.update s.of i x j).capacity
    by_cases hj : j = i
    · subst hj
      rwa [Function.update_self]
    · rw [Function.update_of_ne hj]
      exact h.bounded j

private theorem kept_makeDir {b : Except Text Unit} (h : Kept tag before s)
    (hact : Acts i (.file (.makeDir ())) s b s') : Kept tag before s' ∧ s'.of = s.of := by
  obtain ⟨store, hmay, rfl⟩ := hact
  refine ⟨⟨?_, h.apart, fun j seq hlt => ?_, h.bounded⟩, rfl⟩
  · change _ + store.count () = _
    rw [hmay.count_makeDir]
    exact h.conserved
  · rw [hmay.makeDir.1]
    exact h.fresh j seq hlt

/-- An arrival lands where no file is. -/
theorem kept_create (hinj : Function.Injective tag) {b : Except Text Unit} (h : Kept tag before s)
    (hact : Acts i (.file (.create () (arrivalName (tag i) ((s.of i).tried + 1)))) s b s') :
    Kept tag before s' ∧ s'.of = Function.update s.of i (s.of i).attempt := by
  obtain ⟨store, hmay, rfl⟩ := hact
  have hnone := h.fresh i _ (Nat.lt_succ_self (s.of i).tried)
  -- A name not tried yet is another's, or of a later count.
  have hne (j : ι) (seq : Nat) (hlt : (Function.update s.of i (s.of i).attempt j).tried < seq) :
      ¬(() = () ∧ arrivalName (tag j) seq = arrivalName (tag i) ((s.of i).tried + 1)) := by
    rintro ⟨-, hsame⟩
    obtain ⟨htag, rfl⟩ := arrivalName_inj hsame
    obtain rfl := hinj htag
    rw [Function.update_self] at hlt
    exact absurd hlt (Nat.lt_irrefl _)
  rw [hnone, Option.isSome_none, if_neg Bool.false_ne_true, h.apart]
  refine ⟨h.update 0 rfl ?_ (h.bounded i) (Nat.le_succ _) fun j seq hlt hbefore => ?_, rfl⟩
  · unfold left
    rcases hmay.count_create with ⟨⟨why, rfl⟩, rfl⟩ | ⟨rfl, hcount⟩
    · change 0 + s.store.count () + s.arrived = s.store.count () + (s.arrived + 0)
      omega
    · rw [hnone, Option.isSome_none, if_neg Bool.false_ne_true] at hcount
      change 0 + store.count () + s.arrived = s.store.count () + (s.arrived + 1)
      omega
  · rcases hmay.create with ⟨-, rfl, -⟩ | ⟨-, hputs⟩
    · exact hbefore
    · rwa [hputs.other (hne j seq hlt)]

private theorem kept_write {b : Except Text Unit} {name : Text} {content : List UInt8}
    (h : Kept tag before s) (hact : Acts i (.file (.write () name content)) s b s') :
    Kept tag before s' ∧ s'.of = s.of := by
  obtain ⟨store, hmay, rfl⟩ := hact
  refine ⟨⟨?_, h.apart, fun j seq hlt => ?_, h.bounded⟩, rfl⟩
  · change _ + store.count () = _
    rw [hmay.count_write]
    exact h.conserved
  · have hnone := h.fresh j seq hlt
    change store.file () (arrivalName (tag j) seq) = none
    -- A file that is not there cannot be written; one that is there is no name still to come.
    cases hfile : s.store.file () name with
    | none => rwa [hmay.write_absent hfile]
    | some old =>
      have hne : ¬(() = () ∧ arrivalName (tag j) seq = name) := by
        rintro ⟨-, rfl⟩
        rw [hnone] at hfile
        cases hfile
      rcases hmay.write (Option.isSome_iff_exists.mpr ⟨old, hfile⟩) with ⟨-, -, part, hputs⟩ |
        ⟨-, hputs⟩
      · rwa [hputs.other hne]
      · rwa [hputs.other hne]

/-- A file is taken by one process only, and counted by it. -/
theorem kept_remove {b : Except Text Unit} {name : Text} (h : Kept tag before s)
    (hroom : (s.of i).inRound < (s.of i).capacity)
    (hact : Acts i (.file (.remove () name)) s b s') :
    Kept tag before s' ∧ s'.of = Function.update s.of i ((s.of i).take (done b)) := by
  obtain ⟨store, hmay, rfl⟩ := hact
  -- A removal takes one file at most, and there is room for it.
  have hone : done b ≤ 1 := by
    cases b with
    | ok _ => exact Nat.le_refl 1
    | error _ => exact Nat.zero_le 1
  have hbounded : (s.of i).inRound + done b ≤ (s.of i).capacity := by omega
  rw [h.apart]
  refine ⟨h.update (done b) rfl ?_ hbounded (Nat.le_refl _) fun j seq _ hbefore => ?_, rfl⟩
  · -- What was removed is taken, and what was not is still left.
    unfold left
    rcases hmay.count_remove with ⟨⟨why, rfl⟩, rfl⟩ | ⟨rfl, hcount⟩
    · change 0 + s.store.count () + s.arrived = s.store.count () + s.arrived
      omega
    · change 1 + store.count () + s.arrived = s.store.count () + s.arrived
      omega
  · rcases hmay.remove with ⟨-, rfl, -⟩ | ⟨-, -, hputs⟩
    · exact hbefore
    · rw [hputs]
      split
      · rfl
      · exact hbefore

private theorem kept_drains {capacity : Nat} (h : Kept tag before s)
    (hact : Acts i (.drains capacity) s () s') :
    Kept tag before s' ∧ s'.of = Function.update s.of i ((s.of i).drains capacity) := by
  obtain rfl : s' = _ := hact
  rw [h.apart]
  refine ⟨h.update 0 rfl ?_ (Nat.zero_le _) (Nat.le_refl _) fun _ _ _ hbefore => hbefore, rfl⟩
  change 0 + s.left + s.arrived = s.left + s.arrived
  omega

/-! ### A process among the others -/

variable (tag before) in
/-- The proof outline of the processes over the directory. -/
def outline : Outline ι BacklogOp (Yard ι) := .ofMoves acts (Kept tag before) Move

/-- What a process did stands while the others move. -/
theorem stands {x : Feeder} (hrely : (outline tag before).rely i s s') (h : s.of i = x) :
    s'.of i = x :=
  Outline.ofMoves_stable (Q := fun s => s.of i = x)
    (fun _ _ _ hne _ _ hmove hbefore => (hmove i (Ne.symm hne)).trans hbefore) hrely h

/-- A call that leaves a process's own record at `x` leads to what follows from there. -/
theorem safe_call {α β : Type} {op : BacklogOp β} {next : β → Prog BacklogOp α}
    {post : α → Yard ι → Prop} {x : Feeder} (h : s.of i = x)
    (hnext : ∀ t b t', Kept tag before t → t.of i = x → Acts i op t b t' → ∃ y,
      Kept tag before t' ∧ t'.of = Function.update t.of i y ∧
        (Kept tag before t' → t'.of i = y → (outline tag before).Safe i post (next b) t')) :
    (outline tag before).Safe i post (.call op next) s := by
  intro t hrely hkept b t' hact
  obtain ⟨y, hkept', hof, hsafe⟩ := hnext t b t' hkept (stands hrely h) hact
  refine ⟨hkept', move_update y hof, hsafe hkept' ?_⟩
  rw [hof, Function.update_self]

omit [Fintype ι] in
private theorem update_same (h : s'.of = s.of) : s'.of = Function.update s.of i (s.of i) := by
  rw [h, Function.update_eq_self]

/-- The end of a program, where what is left to say is of the process's own record. -/
theorem safe_pure {α : Type} {a : α} (post : α → Feeder → Prop) (h : post a (s.of i)) :
    (outline tag before).Safe i (fun a t => post a (t.of i)) (Prog.pure a) s := by
  refine Outline.Safe.of_post h fun t hrely _ hpost => ?_
  rwa [stands hrely rfl]

/-- A test's own counters are those of its record. -/
structure Accounts (tag : Nat) (r : DailyBacklog) (f : Feeder) : Prop where
  tag : r.tag = tag
  seq : r.seq = f.tried
  drained : r.drained = f.taken

private theorem safe_arrive (hinj : Function.Injective tag) (count : Nat) {r : DailyBacklog}
    (h : Accounts (tag i) r (s.of i)) :
    (outline tag before).Safe i (fun r t => Accounts (tag i) r (t.of i))
    (DailyBacklog.arrive count r) s := by
  -- Arrivals come one after another, each under the next number of the process.
  induction count generalizing r s with
  | zero => exact safe_pure (Accounts (tag i)) h
  | succ count ih =>
    apply safe_call rfl
    intro t b t' hkept hof hact
    have hstill : Accounts (tag i) r (t.of i) := hof ▸ h
    rw [show arrivalName r.tag (r.seq + 1) = arrivalName (tag i) ((t.of i).tried + 1) by
      rw [hstill.tag, hstill.seq]] at hact
    obtain ⟨hkept', hof'⟩ := kept_create hinj hkept hact
    have hnext (u : Yard ι) (hu : u.of i = (t.of i).attempt) :
        Accounts (tag i) { r with seq := r.seq + 1 } (u.of i) := by
      rw [hu]
      exact ⟨hstill.tag, congrArg (· + 1) hstill.seq, hstill.drained⟩
    refine ⟨_, hkept', hof', fun _ hu => ?_⟩
    -- One that could not be created was tried all the same; one that could is written too.
    cases b with
    | error why => exact ih (hnext t' hu)
    | ok _ =>
      apply safe_call hu
      intro v b v' hkept hv hact
      obtain ⟨hkept', hof⟩ := kept_write hkept hact
      exact ⟨_, hkept', update_same hof, fun _ hv' => ih (hnext v' (hv'.trans hv))⟩

/-- A drain takes no more than it may, and counts what it took. -/
theorem safe_drainListed {x : Feeder} (names : List Text) {processed : Nat}
    (hle : processed ≤ x.capacity) (h : s.of i = x.drew processed) :
    (outline tag before).Safe i (fun count t => t.of i = x.drew count)
      (drainListed x.capacity names processed) s := by
  -- The names listed are removed one after another, as long as the capacity lasts.
  induction names generalizing processed s with
  | nil => exact safe_pure (fun count f => f = x.drew count) h
  | cons name rest ih =>
    unfold drainListed
    by_cases hfull : x.capacity ≤ processed
    · rw [if_pos hfull]
      exact safe_pure (fun count f => f = x.drew count) h
    · rw [if_neg hfull]
      apply safe_call h
      intro t b t' hkept hof hact
      have hroom : (t.of i).inRound < (t.of i).capacity := by
        rw [hof]
        exact not_le.mp hfull
      obtain ⟨hkept', hof'⟩ := kept_remove hkept hroom hact
      refine ⟨_, hkept', hof', fun _ hu => ?_⟩
      rw [hof] at hu
      -- What another process removed first is not counted.
      cases b with
      | error why => exact ih hle hu
      | ok _ => exact ih (not_le.mp hfull) hu

private theorem safe_drain (capacity : Nat) {x : Feeder} (h : s.of i = x) :
    (outline tag before).Safe i (fun count t => (t.of i).tried = x.tried ∧
      (t.of i).taken = x.taken + count) (drain capacity)
      s := by
  apply safe_call h
  intro t _ t' hkept hx hact
  obtain ⟨hkept', hof⟩ := kept_drains hkept hact
  rw [hx] at hof
  refine ⟨_, hkept', hof, fun _ hbegun => ?_⟩
  apply safe_call hbegun
  intro u b u' hkept hbegun hact
  obtain rfl : u' = u := hact
  refine ⟨_, hkept, update_same rfl, fun _ _ => ?_⟩
  -- Where nothing can be listed nothing is drained.
  cases b with
  | error why =>
    apply safe_pure (fun count f => f.tried = x.tried ∧ f.taken = x.taken + count)
    rw [hbegun]
    exact ⟨rfl, rfl⟩
  | ok names =>
    have hdrew : u'.of i = (x.drains capacity).drew 0 := hbegun
    apply (safe_drainListed names (Nat.zero_le _) hdrew).mono
    intro count v _ hv
    rw [hv]
    exact ⟨rfl, rfl⟩

/-- Measuring moves nothing. -/
theorem safe_measure {x : Feeder} (h : s.of i = x) :
    (outline tag before).Safe i (fun _ t => t.of i = x) measure s := by
  apply safe_call h
  intro t b t' hkept hof hact
  obtain rfl : t' = t := hact
  refine ⟨_, hkept, update_same rfl, fun _ hstill => ?_⟩
  cases b with
  | ok names => exact safe_pure (fun _ f => f = x) hof
  | error why => exact safe_pure (fun _ f => f = x) hof

private theorem safe_shared (node : Text) (h : s.of i = ⟨0, 0, 0, 0⟩) : (outline tag before).Safe i
    (fun r t => Accounts (tag i) r (t.of i)) (DailyBacklog.shared node (tag i)) s := by
  apply safe_call h
  intro t b t' hkept hof hact
  obtain ⟨hkept', hsame⟩ := kept_makeDir hkept hact
  refine ⟨_, hkept', update_same hsame, fun _ hstill => safe_pure (Accounts (tag i)) ?_⟩
  rw [hstill, hof]
  exact ⟨rfl, rfl, rfl⟩

variable {S : Type} [Snapshot S]

/-- **One round** of a process, the others doing as they like: its totals are of what it did. -/
theorem safe_tick (hinj : Function.Injective tag) {r : DailyBacklog}
    (h : Accounts (tag i) r (s.of i)) : (outline tag before).Safe i
      (fun ticked t => Accounts (tag i) ticked.2 (t.of i))
      (r.tick : Prog BacklogOp (S × DailyBacklog)) s := by
  -- A tick reads the clock, lets its own arrive, drains, and measures what is left.
  apply safe_call rfl
  intro t now t' hkept hof hact
  obtain rfl : t' = t := hact
  refine ⟨_, hkept, update_same rfl, fun hkept _ => ?_⟩
  have hnow : Accounts (tag i) { r with round := r.round + 1 } (t'.of i) := by
    rw [hof]
    exact ⟨h.tag, h.seq, h.drained⟩
  apply (safe_arrive hinj ARRIVAL hnow).bind hkept
  intro arrived u hkept harrived
  apply (safe_drain _ rfl).bind hkept
  intro processed v hkept' hdrained
  apply (safe_measure rfl).bind hkept'
  intro measured w _ hmeasured
  apply safe_pure (fun (ticked : S × DailyBacklog) f => Accounts (tag i) ticked.2 f)
  -- Whether the reader adds remedies changes nothing of what was drained.
  have hescalate (r : DailyBacklog) (share : Nat) :
      (r.escalate share).tag = r.tag ∧ (r.escalate share).seq = r.seq ∧
        (r.escalate share).drained = r.drained := by
    unfold DailyBacklog.escalate
    split_ifs <;> exact ⟨rfl, rfl, rfl⟩
  rw [hmeasured]
  refine ⟨?_, ?_, ?_⟩
  · exact (hescalate _ _).1.trans harrived.tag
  · exact (hescalate _ _).2.1.trans (harrived.seq.trans hdrained.1.symm)
  · apply (hescalate _ _).2.2.trans
    rw [hdrained.2, ← harrived.drained]

/-! ### Every run -/

/-- What a process runs: a drain over the directory, and its first round. -/
def process (S : Type) [Snapshot S] (node : Text) (tag : Nat) : Prog BacklogOp (S × DailyBacklog) :=
  do
  let r ← DailyBacklog.shared node tag
  r.tick

/-- Round after round. -/
def again (S : Type) [Snapshot S] (_ : ι) (ticked : S × DailyBacklog) :
    Option (Prog BacklogOp (S × DailyBacklog)) := some ticked.2.tick

/-- The processes before any has moved. -/
def begun (S : Type) [Snapshot S] (node : ι → Text) (tag : ι → Nat) (store : Store Unit UInt8) :
    Config ι BacklogOp (S × DailyBacklog) (Yard ι) :=
  ⟨start store, fun i => process S (node i) (tag i)⟩

/-- **The shared backlog is conserved**, for any number of processes of distinct ids and any
interleaving of their calls, where no file that is there to begin with is called as an arrival of
one of them is: what they took and what is left is what was there and what arrived; no arrival was
written over a waiting file; no process took more in a round than that round's capacity; and a
process that has ended a round has counted what it took. -/
theorem backlog_conserved (S : Type) [Snapshot S] (node : ι → Text) (hinj : Function.Injective tag)
    {store : Store Unit UInt8} (hclear : ∀ i seq, 0 < seq →
      store.file () (arrivalName (tag i) seq) = none)
    {c : Config ι BacklogOp (S × DailyBacklog) (Yard ι)}
      (hsteps : Steps acts (again S) (begun S node tag store) c) :
    ∑ i, (c.shared.of i).taken + c.shared.left = store.count () + c.shared.arrived ∧
      c.shared.overwritten = 0 ∧ (∀ i, (c.shared.of i).inRound ≤ (c.shared.of i).capacity) ∧
      ∀ i ticked, c.prog i = .pure ticked → ticked.2.drained = (c.shared.of i).taken := by
  -- Nothing has been taken yet, so all that lies there is what there was before.
  have hkept : Kept tag (store.count ()) (start store : Yard ι) := by
    refine ⟨?_, rfl, fun i seq hlt => hclear i seq hlt, fun _ => Nat.le_refl 0⟩
    change ∑ _, 0 + store.count () = _
    rw [Finset.sum_const_zero, Nat.zero_add]
    rfl
  have hbegun : (outline tag (store.count ())).Holds
      (fun i ticked t => Accounts (tag i) ticked.2 (t.of i)) (begun S node tag store) := by
    refine ⟨hkept, fun i => ?_⟩
    exact (safe_shared (node i) rfl).bind hkept fun r t _ hr => safe_tick hinj hr
  -- Each process ticks again from what its last tick accounts for.
  have hholds := hbegun.steps (fun i ticked p s _ haccounts hagain => by
    obtain rfl := Option.some.inj hagain
    exact safe_tick hinj haccounts) hsteps
  have hinv : Kept tag (store.count ()) c.shared := hholds.inv
  exact ⟨hinv.conserved, hinv.apart, hinv.bounded,
    fun i ticked hended => (hholds.ended hended).drained⟩

/-! ### Two processes over one directory

Each has one arrival made and the others fail. The first lists the directory; before it removes
anything the second comes, and takes the file that was there to begin with. -/

section TwoProcesses

/-- The directory with a process's one arrival in it, and its drain begun. -/
def listed (s : Yard ι) (i : ι) (tag : Nat) (dir : Dir UInt8) : Yard ι where
  store := s.store.set () (dir.insert (arrivalName tag 1) (utf8 ['x']))
  arrived := s.arrived + 1
  overwritten := s.overwritten
  of := Function.update s.of i ⟨30, 0, 10, 0⟩

omit [Fintype ι] in
/-- Arrivals that fail change how many were tried, and nothing else. -/
theorem runs_arrive_failed (count : Nat) (r : DailyBacklog) {s : Yard ι} {x : Feeder}
    (hx : s.of i = x) :
    (DailyBacklog.arrive count r).Runs acts i s { r with seq := r.seq + count }
      { s with of := Function.update s.of i ⟨x.tried + count, x.taken, x.capacity, x.inRound⟩
        } := by
  -- Each arrival fails, and only counts as tried.
  induction count generalizing r s x with
  | zero =>
    subst hx
    have hsame : Function.update s.of i ⟨(s.of i).tried + 0, (s.of i).taken, (s.of i).capacity,
        (s.of i).inRound⟩ = s.of := Function.update_eq_self i s.of
    rw [hsame]
    exact .pure
  | succ count ih =>
    subst hx
    have hfailed : acts i (.file (.create () (arrivalName r.tag (r.seq + 1)))) s (.error [])
        { s with of := Function.update s.of i (s.of i).attempt } := by
      refine ⟨s.store, .inr ⟨trivial, ⟨[], rfl⟩, rfl⟩, ?_⟩
      simp [done]
    have hrest := ih { r with seq := r.seq + 1 }
      (s := { s with of := Function.update s.of i (s.of i).attempt }) (Function.update_self ..)
    dsimp only [Feeder.attempt] at hrest
    rw [Function.update_idem, Nat.add_assoc, Nat.add_assoc, Nat.add_comm 1] at hrest
    exact .call hfailed hrest

omit [Fintype ι] in
/-- A process comes to its listing, which may answer any names, and what it does after its removals
ends and changes nothing. -/
theorem leads_listed (node : Text) {tag : Nat} {s : Yard ι} {dir : Dir UInt8}
    (hdir : s.store () = some dir) (hfresh : arrivalName tag 1 ∉ dir) (hof : s.of i = ⟨0, 0, 0, 0⟩)
    (names : List Text) :
    ∃ rest : Nat → Prog BacklogOp (Records × DailyBacklog),
      (∀ count t, ∃ ticked, (rest count).Runs acts i t ticked t) ∧
      (process Records node tag).Leads acts i s (drainListed 10 names 0 >>= rest)
      (s.listed i tag dir) := by
  -- The directory is made, one file is created and written, and the other arrivals fail.
  have hmake : acts i (.file (.makeDir ())) s (.ok ()) { s with store := s.store.set () dir } :=
    ⟨_, .inl ⟨rfl, by rw [hdir]; rfl⟩, rfl⟩
  have hcreate : acts i (.file (.create () (arrivalName tag 1)))
      { s with store := s.store.set () dir } (.ok ())
      { s with
        store := s.store.set () (dir.insert (arrivalName tag 1) []), arrived := s.arrived + 1
        of := Function.update s.of i ⟨1, 0, 0, 0⟩ } := by
    refine ⟨s.store.set () (dir.insert (arrivalName tag 1) []), .inl ?_, ?_⟩
    · simp [FileOp.Does, Store.set_set]
    · have hnone : ¬((s.store.set () dir).file () (arrivalName tag 1)).isSome := by
        rw [Store.file_set_self, AList.lookup_isSome]
        exact hfresh
      change _ = Yard.mk _ _ (if ((s.store.set () dir).file () (arrivalName tag 1)).isSome then _
        else _) _
      rw [if_neg hnone, hof]
      rfl
  have hwrite : acts i (.file (.write () (arrivalName tag 1) (utf8 ['x'])))
      { s with
        store := s.store.set () (dir.insert (arrivalName tag 1) []), arrived := s.arrived + 1
        of := Function.update s.of i ⟨1, 0, 0, 0⟩ } (.ok ())
      { s with
        store := s.store.set () (dir.insert (arrivalName tag 1) (utf8 ['x']))
        arrived := s.arrived + 1
        of := Function.update s.of i ⟨1, 0, 0, 0⟩ } := by
    refine ⟨_, .inl ?_, rfl⟩
    simp [FileOp.Does, Store.set_set]
  set first : Yard ι := { s with
    store := s.store.set () (dir.insert (arrivalName tag 1) (utf8 ['x'])), arrived := s.arrived + 1
    of := Function.update s.of i ⟨1, 0, 0, 0⟩ }
  have hshared : (DailyBacklog.shared node tag).Runs acts i s
    ⟨node, tag, 0, 0, 0, 1, 0, 0, BASE_READERS, 1,
      false, false, [], .default⟩ { s with store := s.store.set () dir } := .call hmake .pure
  have hfailed (r : DailyBacklog) :=
    runs_arrive_failed 29 r (s := first) (Function.update_self i ⟨1, 0, 0, 0⟩ s.of)
  have harrive : (DailyBacklog.arrive ARRIVAL
      ⟨node, tag, 1, 0, 0, 1, 0, 0, BASE_READERS, 1, false, false, [], .default⟩).Runs acts i
      { s with store := s.store.set () dir }
      ⟨node, tag, 1, 30, 0, 1, 0, 0, BASE_READERS, 1, false, false, [], .default⟩
      { first with of := Function.update first.of i ⟨30, 0, 0, 0⟩ } :=
    .call hcreate (.call hwrite (hfailed _))
  -- The drain begins with the names listed, and has not removed any.
  have hdrain : (drain 10).Leads acts i
    { first with of := Function.update first.of i ⟨30, 0, 0, 0⟩ }
      (drainListed 10 names 0) (s.listed i tag dir) := by
    have hbegun : acts i (.drains 10)
        { first with of := Function.update first.of i ⟨30, 0, 0, 0⟩ } ()
        (s.listed i tag dir) := by
      apply congrArg (Yard.mk _ _ _)
      dsimp only [first]
      rw [Function.update_idem, Function.update_idem, Function.update_self]
      rfl
    exact .call hbegun (.call (b := .ok names) rfl .refl)
  refine ⟨_, fun count t => ?_, hshared.leads_bind.trans
    (.call (b := 0) rfl (harrive.leads_bind.trans (hdrain.bind _)))⟩
  exact ⟨_, .call (b := .ok []) rfl .pure⟩

omit [Fintype ι] in
/-- A file that is there is taken. -/
theorem acts_taken {s : Yard ι} {dir : Dir UInt8} {name : Text} (hdir : s.store () = some dir)
    (hname : name ∈ dir) :
    acts i (.file (.remove () name)) s (.ok ())
      { s with
        store := s.store.set () (dir.erase name)
        of := Function.update s.of i ((s.of i).take 1) } := by
  refine ⟨_, .inl ?_, rfl⟩
  simp [FileOp.Does, hdir, hname]

omit [Fintype ι] in
/-- One that another process took first is not. -/
theorem acts_missed {s : Yard ι} {dir : Dir UInt8} {name : Text} (hdir : s.store () = some dir)
    (hname : name ∉ dir) : acts i (.file (.remove () name)) s (.error []) s := by
  refine ⟨s.store, .inl ?_, ?_⟩
  · simp [FileOp.Does, hdir, hname]
  · have hsame : Function.update s.of i ((s.of i).take 0) = s.of := Function.update_eq_self i s.of
    change s = { s with of := Function.update s.of i ((s.of i).take 0) }
    rw [hsame]

/-- The ids of two processes. -/
def twoTag (second : Bool) : Nat := if second then 8 else 7

/-- What a process called neither `daily_7` nor `daily_8` left in the directory. -/
def kept : Text := "kept".toList

def twoDir : Dir UInt8 := (∅ : Dir UInt8).insert kept (utf8 ['x'])

def twoBefore : Store Unit UInt8 := fun _ => some twoDir

private theorem arrivalName_ne_kept (tag seq : Nat) : arrivalName tag seq ≠ kept := by
  intro hsame
  have hhead := congrArg List.head? hsame
  revert hhead
  change some 'd' = some 'k' → False
  decide

/-- No file of the directory is called as an arrival is. -/
theorem clear_twoBefore (tag seq : Nat) : twoBefore.file () (arrivalName tag seq) = none := by
  change twoDir.lookup (arrivalName tag seq) = none
  rw [twoDir, AList.lookup_insert_ne (arrivalName_ne_kept tag seq)]
  rfl

/-- A file taken by the one of two processes that comes to it first, and by the other its own
arrival. -/
theorem backlog_conserved_two : ∃ c : Config Bool BacklogOp (Records × DailyBacklog) (Yard Bool),
    Steps acts (again Records) (begun Records (fun _ => ['n']) twoTag twoBefore) c ∧
      c.shared.arrived = 2 ∧ (∀ second, (c.shared.of second).taken = 1) ∧
      (∀ second, ∃ ticked, c.prog second = .pure ticked ∧ ticked.2.drained = 1) ∧
      ∑ second, (c.shared.of second).taken + c.shared.left =
        twoBefore.count () + c.shared.arrived := by
  have hapart : arrivalName 8 1 ≠ arrivalName 7 1 := by
    intro hsame
    obtain ⟨htag, -⟩ := arrivalName_inj hsame
    omega
  have hclear (tag : Nat) : arrivalName tag 1 ∉ twoDir := by
    rw [twoDir, AList.mem_insert, not_or]
    exact ⟨arrivalName_ne_kept tag 1, AList.notMem_empty _⟩
  set dir₁ := twoDir.insert (arrivalName 7 1) (utf8 ['x'])
  set dir₂ := dir₁.insert (arrivalName 8 1) (utf8 ['x'])
  set s₀ : Yard Bool := start twoBefore
  set s₁ : Yard Bool := s₀.listed false 7 twoDir
  set s₂ : Yard Bool := s₁.listed true 8 dir₁
  set s₃ : Yard Bool := { s₂ with
    store := s₂.store.set () (dir₂.erase kept), of :=
      Function.update s₂.of true ((s₂.of true).take 1) }
  -- The first lists what is there and its own arrival,
  obtain ⟨rest, hrest, hlisted⟩ := leads_listed (i := false) (s := s₀) ['n'] rfl (hclear 7) rfl
    [kept, arrivalName 7 1]
  have hfirst :=
    hlisted.steps (again Records) (f := (begun Records (fun _ => ['n']) twoTag twoBefore).prog) rfl
  -- the second comes, and takes what was there,
  have hstore₁ : s₁.store () = some dir₁ := Store.set_self s₀.store () dir₁
  have hfresh : arrivalName 8 1 ∉ dir₁ := by
    rw [AList.mem_insert, not_or]
    exact ⟨hapart, hclear 8⟩
  obtain ⟨rest', hrest', hlisted'⟩ := leads_listed (i := true) ['n'] hstore₁ hfresh rfl [kept]
  have hstore₂ : s₂.store () = some dir₂ := Store.set_self s₁.store () dir₂
  have hkept : kept ∈ dir₂ := by
    rw [AList.mem_insert, AList.mem_insert, twoDir, AList.mem_insert]
    exact .inr (.inr (.inl rfl))
  have htakes : (drainListed 10 [kept] 0).Runs acts true s₂ 1 s₃ :=
    .call (acts_taken hstore₂ hkept) .pure
  obtain ⟨ticked', hended'⟩ := hrest' 1 s₃
  have hsecond := (hlisted'.trans (htakes.leads_bind.trans hended'.leads)).steps (again Records)
    (f := Function.update (begun Records (fun _ => ['n']) twoTag twoBefore).prog false
      (drainListed 10 [kept, arrivalName 7 1] 0 >>= rest)) rfl
  -- which the first then misses.
  have hstore₃ : s₃.store () = some (dir₂.erase kept) := Store.set_self s₂.store () _
  have hmissed : kept ∉ dir₂.erase kept := fun hmem => (AList.mem_erase.mp hmem).1 rfl
  have hmine : arrivalName 7 1 ∈ dir₂.erase kept := by
    rw [AList.mem_erase, AList.mem_insert, AList.mem_insert]
    exact ⟨arrivalName_ne_kept 7 1, .inr (.inl rfl)⟩
  have htakes' : (drainListed 10 [kept, arrivalName 7 1] 0).Runs acts false s₃ 1 _ :=
    .call (acts_missed hstore₃ hmissed) (.call (acts_taken hstore₃ hmine) .pure)
  obtain ⟨ticked, hended⟩ := hrest 1 _
  have hthird := (htakes'.leads_bind.trans hended.leads).steps (again Records)
    (f :=
      Function.update (Function.update (begun Records (fun _ => ['n']) twoTag twoBefore).prog false
      (drainListed 10 [kept, arrivalName 7 1] 0 >>= rest)) true (.pure ticked')) rfl
  have hall := hfirst.trans (hsecond.trans hthird)
  have hinj : Function.Injective twoTag := by decide
  obtain ⟨hconserved, -, -, hdrained⟩ := backlog_conserved Records (fun _ => ['n']) hinj
    (fun second seq _ => clear_twoBefore (twoTag second) seq) hall
  refine ⟨_, hall, rfl, fun second => ?_, fun second => ?_, hconserved⟩
  · cases second with
    | false => rfl
    | true => rfl
  · cases second with
    | false => exact ⟨ticked, rfl, hdrained false ticked rfl⟩
    | true => exact ⟨ticked', rfl, hdrained true ticked' rfl⟩

end TwoProcesses

/-! ### A file called as an arrival of the process -/

section OneProcess

/-- A directory that holds a file called as the first arrival of process 7. -/
def oneTaken : Store Unit UInt8 :=
  fun _ => some ((∅ : Dir UInt8).insert (arrivalName 7 1) (utf8 ['x']))

/-- The directory as it was, with the first arrival of process 7 made. -/
def oneArrived (store : Store Unit UInt8) (dir : Dir UInt8) : Yard Unit where
  store := (store.set () dir).set () (dir.insert (arrivalName 7 1) [])
  arrived := 1
  overwritten := if ((store.set () dir).file () (arrivalName 7 1)).isSome then 1 else 0
  of := Function.update (fun _ => ⟨0, 0, 0, 0⟩) () ⟨1, 0, 0, 0⟩

private theorem steps_oneArrived {store : Store Unit UInt8} {dir : Dir UInt8}
    (hdir : store () = some dir) :
    ∃ rest, Steps acts (again Records) (begun Records (fun _ : Unit => ['n']) (fun _ => 7) store)
      ⟨oneArrived store dir, rest⟩ := by
  have hmake : acts () (.file (.makeDir ())) (start store : Yard Unit) (.ok ())
      { start store with store := store.set () dir } :=
    ⟨store.set () dir,
      Or.inl ⟨rfl, congrArg (fun one : Option (Dir UInt8) => store.set () (one.getD ∅)) hdir.symm⟩,
      rfl⟩
  have hcreate : acts () (.file (.create () (arrivalName 7 1)))
      { start store with store := store.set () dir } (.ok ()) (oneArrived store dir) := by
    have hdoes : (FileOp.create () (arrivalName 7 1)).Does (store.set () dir) (.ok ())
        ((store.set () dir).set () (dir.insert (arrivalName 7 1) [])) := by
      simp [FileOp.Does]
    exact ⟨_, Or.inl hdoes, rfl⟩
  have hleads : (process Records ['n'] 7).Leads acts () (start store) _ (oneArrived store dir) :=
    .call hmake (.call (b := 0) rfl (.call hcreate .refl))
  exact ⟨_, hleads.steps (again Records) rfl⟩

/-- **A file is overwritten** that is called as an arrival of a process is, where it is there before
the process begins; and two files are counted where there is one. -/
theorem overwritten_one : ¬∀ (store : Store Unit UInt8)
    (c : Config Unit BacklogOp (Records × DailyBacklog) (Yard Unit)),
    Steps acts (again Records) (begun Records (fun _ => ['n']) (fun _ => 7) store) c →
      ∑ i, (c.shared.of i).taken + c.shared.left = store.count () + c.shared.arrived ∧
        c.shared.overwritten = 0 := by
  intro hclaim
  obtain ⟨rest, hsteps⟩ :=
    steps_oneArrived
      (show oneTaken () = some ((∅ : Dir UInt8).insert (arrivalName 7 1) (utf8 ['x'])) from rfl)
  have hover :
    (oneArrived oneTaken ((∅ : Dir UInt8).insert (arrivalName 7 1) (utf8 ['x']))).overwritten =
      1 := by
    decide
  exact absurd (hover.symm.trans (hclaim _ _ hsteps).2) Nat.one_ne_zero

end OneProcess

end Yard

end XmipEssentials
