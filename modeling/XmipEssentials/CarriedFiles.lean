import XmipEssentials.Observe
import Mathlib.Data.List.AList
import Mathlib.Data.List.Sort
import Mathlib.Logic.Relation

/-!
# The files a rig carries through real nodes

Each round the rig drops one file into each Receive Location, under a name of its own, and judges
every file it ever dropped: arrived, young, overdue or lost. What arrives is told by others — a
watched folder, a far end — at any time, while a file is being dropped and before the drop is noted
too.

* `judged_truly` — over any run, in any order of drops and arrivals: no two files were dropped under
  one name, and a round's health says what the run did. It is fine just where every drop of the
  round was made and every file not young was told of, done just where a drop was not made or a file
  is lost, and stressed otherwise.
* `figures_tell` — the figures of a round are the run's: of each file told of, how long it took
  until it was first told of.
* `fate_kept` — a file once carried stays so, and took as long; a file lost or overdue changes only
  by being told of.
-/

namespace XmipEssentials

open Text

/-- The name the `number`th Stream of a contract arrives under. -/
def Contract.fileName (contract : Contract) (number : Nat) : Text :=
  contract.name ++ '-' :: decimal number

/-- A file's name says its number. -/
theorem Contract.number_of_fileName {contract contract' : Contract} {number number' : Nat}
    (h : contract.fileName number = contract'.fileName number') : number = number' := by
  have hdigits (n : Nat) : '-' ∉ decimal n := fun hmem => absurd (decimal_isDigit hmem) (by decide)
  have hsplit := congrArg (rsplitOnce '-') h
  rw [fileName, fileName, rsplitOnce_append (hdigits _), rsplitOnce_append (hdigits _),
    Option.some.injEq, Prod.mk.injEq] at hsplit
  exact decimal_injective hsplit.2

namespace Delivery

/-- The drops, by where they are placed, the files dropped into them, and what arrived, each with
when. -/
structure Carried where
  drops : List Text
  dropped : AList fun _ : Text => Nat
  arrived : AList fun _ : Text => Nat
  next : Nat

namespace Carried

/-- How long a file may take before it is overdue, in nanoseconds. -/
def GRACE : Nat := 5 * 10 ^ 9

/-- How long an overdue file may take before it is lost. -/
def LOST : Nat := 60 * 10 ^ 9

/-- Nothing dropped yet. -/
def new (drops : List Text) : Carried := ⟨drops, ∅, ∅, 0⟩

/-! ### What arrives -/

/-- A file told of: its arrival, where it was not told of before. -/
def told (now : Nat) (c : Carried) (name : Text) : Carried :=
  -- what was told of first is when it arrived
  if (c.arrived.lookup name).isSome then c else { c with arrived := c.arrived.insert name now }

/-- The files of a folder that are whole: none a send is still writing. -/
def whole (names : List Text) : List Text := names.filter fun name => ¬".xmip-".toList <:+: name

/-- A folder looked at: every file whole in it told of. -/
def seen (names : List Text) (now : Nat) (c : Carried) : Carried := (whole names).foldl (told now) c

/-! ### One round -/

/-- The contract of the next file. -/
def contract (c : Carried) : Contract := (contracts[c.next % contracts.length]?).getD .bytes

/-- One file dropped into a Receive Location: when it was, or why it was not and so what is said of
it. -/
def drop (into : Text) (written : Except Text Nat) (c : Carried) : Carried × List Text :=
  let name := c.contract.fileName c.next
  -- the name is spent whether or not the drop is made
  let c := { c with next := c.next + 1 }
  match written with
  | .ok now => ({ c with dropped := c.dropped.insert name now }, [])
  | .error error => (c, [name ++ " into ".toList ++ into ++ ": ".toList ++ error])

/-- What became of a file. -/
inductive Fate where
  | carried (took : Nat)
  | lost
  | overdue
  | young
  deriving DecidableEq, Repr

/-- What became of a file dropped, looked at an instant. -/
def fate (c : Carried) (instant : Nat) (file : Text × Nat) : Fate :=
  match c.arrived.lookup file.1 with
  | some seen => .carried (seen - file.2)
  | none =>
    if LOST ≤ instant - file.2 then .lost
    else if GRACE ≤ instant - file.2 then .overdue
    else .young

/-- The files dropped, by their names. -/
def files (c : Carried) : List (Text × Nat) :=
  (c.dropped.entries.map fun entry => (entry.1, entry.2)).insertionSort fun a b => a.1 ≤ b.1

/-- How long each file that arrived took. -/
def took (c : Carried) (instant : Nat) : List Nat :=
  (c.files.filterMap fun file => match c.fate instant file with
    | .carried took => some took
    | _ => none).insertionSort (· ≤ ·)

/-- The names of the files of one fate. -/
def named (c : Carried) (instant : Nat) (fate : Fate) : List Text :=
  (c.files.filter fun file => c.fate instant file = fate).map Prod.fst

/-- What was carried so far, and how long each took, where the round's drops left `failed` to say;
`shown` is a duration as it is written. -/
def record (shown : Nat → Text) (root : Text) (failed : List Text) (instant : Nat) (now : Int)
    (c : Carried) : HealthRecord :=
  let took := c.took instant
  let lost := c.named instant .lost
  let overdue := c.named instant .overdue
  let spoken := match took.head? with
    | none => []
    | some fastest =>
      "; from its drop to its arrival ".toList ++ shown fastest ++ " the fastest, ".toList ++
      shown ((took[took.length / 2]?).getD 0) ++ " the median".toList
  let carried := decimal took.length ++ " of ".toList ++ decimal c.dropped.entries.length ++
    " file(s) dropped carried, each through a receiving node, Xmip Storage ".toList ++
    "over the wire and a sending node".toList ++ spoken
  let (health, evidence) : Health × Text :=
    if failed ≠ [] then
      (.done, "not dropped: ".toList ++ "; ".toList.intercalate failed ++ "; ".toList ++ carried)
    else if lost ≠ [] then
      (.done, decimal lost.length ++ " lost, ".toList ++ ", ".toList.intercalate (lost.take 5) ++
        ": ".toList ++ carried)
    else if overdue ≠ [] then
      (.stressed, decimal overdue.length ++ " overdue past ".toList ++ shown GRACE ++ ": ".toList ++
        carried)
    else (.fine, carried)
  ⟨root ++ "/carried".toList, health, 0, evidence, now⟩

/-- The judgment so far, in words. -/
def words (c : Carried) : Text :=
  decimal (c.files.filter fun file => (c.arrived.lookup file.1).isSome).length ++ " of ".toList ++
    decimal c.dropped.entries.length ++ " carried".toList

/-! ### A run -/

/-- The rig in a run: the round under way, as the Locations still to drop into and what is said of
those not dropped into; and beside it what came of the drops of this round so far, all that was ever
dropped and all that was told of, in their order. -/
structure World where
  carried : Carried
  round : Option (List Text × List Text)
  outcomes : List (Except Text Nat)
  written : List (Text × Nat)
  heard : List (Text × Nat)

/-- What one drop adds to the files written. -/
def World.wrote (w : World) : Except Text Nat → List (Text × Nat)
  | .ok now => [(w.carried.contract.fileName w.carried.next, now)]
  | .error _ => []

/-- One step of a run, of the rig or of what tells it of arrivals. -/
inductive Step : World → World → Prop
  | told (w : World) (name : Text) (now : Nat) :
    Step w { w with carried := told now w.carried name, heard := w.heard ++ [(name, now)] }
  | seen (w : World) (names : List Text) (now : Nat) :
    Step w { w with
      carried := w.carried.seen names now
      heard := w.heard ++ (whole names).map fun name => (name, now) }
  | begins {w : World} (hround : w.round = none) :
    Step w { w with round := some (w.carried.drops, []), outcomes := [] }
  | drops {w : World} {into : Text} {rest failed : List Text}
    (hround : w.round = some (into :: rest, failed)) (written : Except Text Nat) :
    Step w { w with
      carried := (w.carried.drop into written).1
      round := some (rest, failed ++ (w.carried.drop into written).2)
      outcomes := w.outcomes ++ [written]
      written := w.written ++ w.wrote written }
  | ends {w : World} {failed : List Text} (hround : w.round = some ([], failed)) :
    Step w { w with round := none }

/-- Any number of steps. -/
abbrev Steps : World → World → Prop := Relation.ReflTransGen Step

/-- A run of a rig that drops into these Locations. -/
def Ran (w : World) : Prop := ∃ drops, Steps ⟨new drops, none, [], [], []⟩ w

/-! ### What a run keeps -/

/-- A file was told of in the run. -/
def World.Heard (w : World) (name : Text) : Prop := name ∈ w.heard.map Prod.fst

/-- When a file was first told of. -/
def first (heard : List (Text × Nat)) (name : Text) : Option Nat :=
  (heard.find? fun one => one.1 = name).map Prod.snd

/-- What holds between any two steps: what is kept of the files dropped is all that was dropped,
each under a number of its own, what is kept of arrivals is when each was first told of, and what a
round has to say is of the drops not made. -/
structure Sound (w : World) : Prop where
  dropped : w.carried.dropped.entries.map (fun entry => (entry.1, entry.2)) = w.written.reverse
  numbered : ∀ file ∈ w.written, ∃ (contract : Contract) (number : Nat),
    file.1 = contract.fileName number ∧ number < w.carried.next
  arrived : ∀ name, w.carried.arrived.lookup name = first w.heard name
  round : ∀ {rest failed}, w.round = some (rest, failed) →
    (failed = [] ↔ ∀ one ∈ w.outcomes, ∃ now, one = .ok now) ∧
    w.outcomes.length + rest.length = w.carried.drops.length

private theorem first_append (heard more : List (Text × Nat)) (name : Text) :
    first (heard ++ more) name = (first heard name).or (first more name) := by
  rw [first, first, first, List.find?_append]
  cases heard.find? fun one => one.1 = name with
  | none => rfl
  | some one => rfl

private theorem lookup_told (now : Nat) (c : Carried) (name other : Text) :
    (told now c name).arrived.lookup other =
      (c.arrived.lookup other).or (if name = other then some now else none) := by
  rw [told]
  split_ifs with hsome hname hname
  · -- told of already, and stays as it was
    subst hname
    obtain ⟨seen, hseen⟩ := Option.isSome_iff_exists.mp hsome
    rw [hseen]
    rfl
  · rw [Option.or_none]
  · subst hname
    rw [Option.not_isSome_iff_eq_none.mp hsome]
    exact AList.lookup_insert _
  · rw [Option.or_none]
    exact AList.lookup_insert_ne (Ne.symm hname)

/-- Being told of files changes nothing but what arrived. -/
theorem told_eq (now : Nat) (c : Carried) (name : Text) :
    told now c name = { c with arrived := (told now c name).arrived } := by
  rw [told]
  split_ifs
  · rfl
  · rfl

private theorem foldl_told_eq (now : Nat) (names : List Text) (c : Carried) :
    names.foldl (told now) c = { c with arrived := (names.foldl (told now) c).arrived } := by
  induction names generalizing c with
  | nil => rfl
  | cons name names ih =>
    rw [List.foldl_cons, ih, told_eq]

private theorem lookup_foldl_told (now : Nat) (names : List Text) (c : Carried) (other : Text) :
    (names.foldl (told now) c).arrived.lookup other =
      (c.arrived.lookup other).or (first (names.map fun name => (name, now)) other) := by
  induction names generalizing c with
  | nil => exact (Option.or_none).symm
  | cons name names ih =>
    rw [List.foldl_cons, ih, lookup_told, Option.or_assoc, List.map_cons, first, first,
      List.find?_cons]
    -- told of now, it is the first telling of those that remain
    by_cases hname : name = other
    · simp [hname]
    · simp [hname]

/-- **Every step keeps it.** -/
theorem Sound.step {w w' : World} (h : Sound w) (hstep : Step w w') : Sound w' := by
  cases hstep with
  | told name now =>
    refine ⟨?_, ?_, fun other => ?_, fun hround => ?_⟩
    · show (told now w.carried name).dropped.entries.map _ = _
      rw [told_eq]
      exact h.dropped
    · show ∀ file ∈ w.written, ∃ contract number, _ ∧ number < (told now w.carried name).next
      rw [told_eq]
      exact h.numbered
    · show (told now w.carried name).arrived.lookup other = first (w.heard ++ [(name, now)]) other
      rw [first_append, lookup_told, h.arrived]
      by_cases hname : name = other
      · simp [first, hname]
      · simp [first, hname]
    · show _ ∧ _ = (told now w.carried name).drops.length
      rw [told_eq]
      exact h.round hround
  | seen names now =>
    refine ⟨?_, ?_, fun other => ?_, fun hround => ?_⟩
    · show ((whole names).foldl (told now) w.carried).dropped.entries.map _ = _
      rw [foldl_told_eq]
      exact h.dropped
    · show ∀ file ∈ w.written, ∃ contract number, _ ∧
        number < ((whole names).foldl (told now) w.carried).next
      rw [foldl_told_eq]
      exact h.numbered
    · show ((whole names).foldl (told now) w.carried).arrived.lookup other =
        first (w.heard ++ _) other
      rw [first_append, ← h.arrived]
      exact lookup_foldl_told now (whole names) w.carried other
    · show _ ∧ _ = ((whole names).foldl (told now) w.carried).drops.length
      rw [foldl_told_eq]
      exact h.round hround
  | begins hround =>
    refine ⟨h.dropped, h.numbered, h.arrived, fun hbegun => ?_⟩
    obtain ⟨rfl, rfl⟩ := Prod.mk.inj (Option.some.inj hbegun)
    exact ⟨iff_of_true rfl fun _ hone => absurd hone List.not_mem_nil, Nat.zero_add _⟩
  | ends hround => exact ⟨h.dropped, h.numbered, h.arrived, nofun⟩
  | @drops into rest failed hround written =>
    obtain ⟨hfailed, hcount⟩ := h.round hround
    rw [List.length_cons] at hcount
    cases written with
    | error error =>
      refine ⟨?_, fun file hfile => ?_, h.arrived, fun hround' => ?_⟩
      · show w.carried.dropped.entries.map _ = (w.written ++ []).reverse
        rw [List.append_nil]
        exact h.dropped
      · have hfile : file ∈ w.written ++ [] := hfile
        rw [List.append_nil] at hfile
        obtain ⟨contract, number, hname, hlt⟩ := h.numbered file hfile
        exact ⟨contract, number, hname, Nat.lt_succ_of_lt hlt⟩
      · obtain ⟨rfl, rfl⟩ := Prod.mk.inj (Option.some.inj hround')
        refine ⟨iff_of_false (List.append_ne_nil_of_right_ne_nil _ (List.cons_ne_nil _ _))
          fun hall => ?_, ?_⟩
        · obtain ⟨now, hnow⟩ :=
            hall (.error error) (List.mem_append_right _ (List.mem_singleton_self _))
          cases hnow
        · show (w.outcomes ++ [_]).length + _ = w.carried.drops.length
          rw [List.length_append, List.length_singleton]
          omega
    | ok now =>
      -- No file dropped before has its number.
      have hfresh : w.carried.contract.fileName w.carried.next ∉ w.carried.dropped := by
        intro hmem
        rw [AList.mem_keys, AList.keys, List.keys, List.mem_map] at hmem
        obtain ⟨entry, hentry, hname⟩ := hmem
        have hold : (entry.1, entry.2) ∈ w.written := by
          rw [← List.mem_reverse, ← h.dropped]
          exact List.mem_map_of_mem hentry
        obtain ⟨contract, number, hnumbered, hlt⟩ := h.numbered _ hold
        rw [show entry.1 = contract.fileName number from hnumbered] at hname
        exact absurd (Contract.number_of_fileName hname) (Nat.ne_of_lt hlt)
      refine ⟨?_, fun file hfile => ?_, h.arrived, fun hround' => ?_⟩
      · show (w.carried.dropped.insert _ now).entries.map _ = (w.written ++ [_]).reverse
        rw [AList.entries_insert_of_notMem hfresh, List.map_cons, h.dropped, List.reverse_append]
        rfl
      · rcases List.mem_append.mp hfile with hfile | hfile
        · obtain ⟨contract, number, hname, hlt⟩ := h.numbered file hfile
          exact ⟨contract, number, hname, Nat.lt_succ_of_lt hlt⟩
        · rw [List.mem_singleton.mp hfile]
          exact ⟨_, _, rfl, Nat.lt_succ_self _⟩
      · obtain ⟨rfl, rfl⟩ := Prod.mk.inj (Option.some.inj hround')
        show (failed ++ [] = [] ↔ ∀ one ∈ w.outcomes ++ [_], _) ∧
          (w.outcomes ++ [_]).length + _ = w.carried.drops.length
        rw [List.append_nil, hfailed, List.length_append, List.length_singleton]
        refine
          ⟨⟨fun hall => ?_, fun hall one hone => hall one (List.mem_append_left _ hone)⟩, by omega⟩
        exact List.forall_mem_append.mpr ⟨hall, List.forall_mem_singleton.mpr ⟨now, rfl⟩⟩

private theorem sound_new (drops : List Text) : Sound ⟨new drops, none, [], [], []⟩ :=
  ⟨rfl, fun _ h => absurd h List.not_mem_nil, fun _ => rfl, nofun⟩

private theorem Ran.sound {w : World} (h : Ran w) : Sound w := by
  obtain ⟨drops, hsteps⟩ := h
  induction hsteps with
  | refl => exact sound_new drops
  | tail _ hstep ih => exact ih.step hstep

/-! ### What a round says -/

private theorem first_eq_none {heard : List (Text × Nat)} {name : Text} :
    first heard name = none ↔ name ∉ heard.map Prod.fst := by
  rw [first, Option.map_eq_none_iff, List.find?_eq_none, List.mem_map, not_exists]
  constructor
  · rintro h one ⟨hone, hname⟩
    exact h one hone (decide_eq_true hname)
  · intro h one hone
    simpa using fun hname => h one ⟨hone, hname⟩

variable {w : World}

private theorem Sound.perm_files (h : Sound w) : w.carried.files.Perm w.written := by
  apply (List.perm_insertionSort _ _).trans
  rw [h.dropped]
  exact List.reverse_perm _

private theorem Sound.nodup (h : Sound w) : (w.written.map Prod.fst).Nodup := by
  have hkeys : w.written.reverse.map Prod.fst = w.carried.dropped.keys := by
    rw [← h.dropped, List.map_map]
    rfl
  rw [← List.nodup_reverse, ← List.map_reverse, hkeys]
  exact w.carried.dropped.keys_nodup

private theorem Sound.fate_eq (h : Sound w) (instant : Nat) (file : Text × Nat) :
    w.carried.fate instant file =
      match first w.heard file.1 with
      | some seen => .carried (seen - file.2)
      | none =>
        if LOST ≤ instant - file.2 then .lost else if GRACE ≤ instant - file.2 then .overdue
          else .young := by
  rw [fate, h.arrived]

/-- How long a file was waited for. -/
theorem waited_iff {limit instant since : Nat} (h : 0 < limit) :
    limit ≤ instant - since ↔ since + limit ≤ instant := by
  omega

private theorem GRACE_pos : 0 < GRACE := by decide

private theorem LOST_pos : 0 < LOST := by decide

/-- A file is lost where it was dropped long enough ago and never told of. -/
theorem Sound.fate_eq_lost (h : Sound w) {instant : Nat} {file : Text × Nat} :
    w.carried.fate instant file = .lost ↔ file.2 + LOST ≤ instant ∧ ¬w.Heard file.1 := by
  rw [h.fate_eq, World.Heard, ← first_eq_none, ← waited_iff LOST_pos]
  cases first w.heard file.1 with
  | some seen => exact iff_of_false nofun fun hboth => nomatch hboth.2
  | none =>
    dsimp only
    split_ifs with hlost hgrace
    · exact iff_of_true rfl ⟨hlost, rfl⟩
    · exact iff_of_false nofun fun hboth => hlost hboth.1
    · exact iff_of_false nofun fun hboth => hlost hboth.1

/-- It is overdue where it was dropped some while ago, not that long, and never told of. -/
theorem Sound.fate_eq_overdue (h : Sound w) {instant : Nat} {file : Text × Nat} :
    w.carried.fate instant file = .overdue ↔
      (file.2 + GRACE ≤ instant ∧ ¬file.2 + LOST ≤ instant) ∧ ¬w.Heard file.1 := by
  rw [h.fate_eq, World.Heard, ← first_eq_none, ← waited_iff LOST_pos, ← waited_iff GRACE_pos]
  cases first w.heard file.1 with
  | some seen => exact iff_of_false nofun fun hboth => nomatch hboth.2
  -- told of nothing, its age alone decides
  | none =>
    dsimp only
    split_ifs with hlost hgrace
    · exact iff_of_false nofun fun hboth => hboth.1.2 hlost
    · exact iff_of_true rfl ⟨⟨hgrace, hlost⟩, rfl⟩
    · exact iff_of_false nofun fun hboth => hgrace hboth.1.1

private theorem Sound.named_ne_nil (h : Sound w) {instant : Nat} {fate : Fate} :
    w.carried.named instant fate ≠ [] ↔ ∃ file ∈ w.written, w.carried.fate instant file = fate := by
  rw [named, Ne, List.map_eq_nil_iff, List.filter_eq_nil_iff, not_forall]
  constructor
  · rintro ⟨file, hfile⟩
    rw [Classical.not_imp, decide_eq_true_iff, not_not] at hfile
    exact ⟨file, h.perm_files.mem_iff.mp hfile.1, hfile.2⟩
  · rintro ⟨file, hfile, hfate⟩
    refine ⟨file, ?_⟩
    rw [Classical.not_imp, decide_eq_true_iff, not_not]
    exact ⟨h.perm_files.mem_iff.mpr hfile, hfate⟩

private theorem health_record (shown : Nat → Text) (root : Text) (failed : List Text)
    (instant : Nat) (now : Int) (c : Carried) :
    (c.record shown root failed instant now).health =
      if failed ≠ [] then .done
      else if c.named instant .lost ≠ [] then .done
      else if c.named instant .overdue ≠ [] then .stressed
      else .fine := by
  rw [record]
  split_ifs <;> rfl

/-- **A round's health says what the run did.** No two files of a run have one name. A round is done
just where one of its drops was not made or a file is lost, dropped long enough ago and never told
of; it is fine just where all its drops were made and every file not young was told of; and it is
stressed in between. -/
theorem judged_truly (h : Ran w) {failed : List Text} (hround : w.round = some ([], failed))
    (shown : Nat → Text) (root : Text) (instant : Nat) (now : Int) :
    let health := (w.carried.record shown root failed instant now).health
    let made := ∀ one ∈ w.outcomes, ∃ now, one = .ok now
    (w.written.map Prod.fst).Nodup ∧ w.outcomes.length = w.carried.drops.length ∧
      (health = .done ↔ ¬made ∨ ∃ file ∈ w.written, file.2 + LOST ≤ instant ∧ ¬w.Heard file.1) ∧
      (health = .fine ↔ made ∧ ∀ file ∈ w.written, file.2 + GRACE ≤ instant → w.Heard file.1) ∧
      (health = .stressed ↔ made ∧ (∀ file ∈ w.written, file.2 + LOST ≤ instant → w.Heard file.1) ∧
        ∃ file ∈ w.written, file.2 + GRACE ≤ instant ∧ ¬w.Heard file.1) := by
  intro health made
  have hsound := h.sound
  obtain ⟨hmade, hcount⟩ : (failed = [] ↔ made) ∧ _ := hsound.round hround
  have hlost : w.carried.named instant .lost ≠ [] ↔ ∃ file ∈ w.written, file.2 + LOST ≤ instant ∧
    ¬w.Heard file.1 := by
    rw [hsound.named_ne_nil]
    simp only [hsound.fate_eq_lost]
  have hoverdue : w.carried.named instant .overdue ≠ [] ↔
      ∃ file ∈ w.written, (file.2 + GRACE ≤ instant ∧ ¬file.2 + LOST ≤ instant) ∧
      ¬w.Heard file.1 := by
    rw [hsound.named_ne_nil]
    simp only [hsound.fate_eq_overdue]
  have hhealth : health = _ := health_record shown root failed instant now w.carried
  -- What was waited for longer than the one limit was waited for longer than the other.
  have hlonger (file : Text × Nat) (hfile : file.2 + LOST ≤ instant) : file.2 + GRACE ≤ instant :=
    (Nat.add_le_add_left (by decide) _).trans hfile
  refine ⟨hsound.nodup, hcount, ?_⟩
  rw [hhealth, ← hmade]
  split_ifs with hfailed hsome hlate
  · refine ⟨iff_of_true rfl (.inl hfailed), iff_of_false nofun fun hall => hfailed hall.1,
      iff_of_false nofun fun hall => hfailed hall.1⟩
  · obtain ⟨file, hfile, hlong, hnever⟩ := hlost.mp hsome
    refine ⟨iff_of_true rfl (.inr ⟨file, hfile, hlong, hnever⟩), iff_of_false nofun fun hall => ?_,
      iff_of_false nofun fun hall => hnever (hall.2.1 file hfile hlong)⟩
    exact hnever (hall.2 file hfile (hlonger file hlong))
  · rw [not_not] at hfailed
    rw [hlost] at hsome
    push Not at hsome
    obtain ⟨file, hfile, ⟨hlong, -⟩, hnever⟩ := hoverdue.mp hlate
    refine ⟨iff_of_false nofun fun hdone => ?_,
      iff_of_false nofun fun hall => hnever (hall.2 file hfile hlong),
      iff_of_true rfl ⟨hfailed, fun file hfile hlong => hsome file hfile hlong, file, hfile, hlong,
        hnever⟩⟩
    rcases hdone with hdone | ⟨file, hfile, hlong, hnever⟩
    · exact hdone hfailed
    · exact hnever (hsome file hfile hlong)
  · rw [not_not] at hfailed
    rw [hlost] at hsome
    rw [hoverdue] at hlate
    push Not at hsome hlate
    have hall : ∀ file ∈ w.written, file.2 + GRACE ≤ instant → w.Heard file.1 := by
      intro file hfile hlong
      by_cases hlonger : file.2 + LOST ≤ instant
      · exact hsome file hfile hlonger
      · exact hlate file hfile ⟨hlong, Nat.lt_of_not_le hlonger⟩
    refine ⟨iff_of_false nofun fun hdone => ?_, iff_of_true rfl ⟨hfailed, hall⟩,
      iff_of_false nofun fun hstressed => ?_⟩
    · rcases hdone with hdone | ⟨file, hfile, hlong, hnever⟩
      · exact hdone hfailed
      · exact hnever (hsome file hfile hlong)
    · obtain ⟨-, -, file, hfile, hlong, hnever⟩ := hstressed
      exact hnever (hall file hfile hlong)

/-- A rig that drops into one Location, told of its file before it noted the drop. -/
def oneDropped : World where
  carried := ((told 0 (new ["in".toList]) "bytes-0".toList).drop "in".toList (.ok 1)).1
  round := some ([], [])
  outcomes := [.ok 1]
  written := [("bytes-0".toList, 1)]
  heard := [("bytes-0".toList, 0)]

private theorem ran_oneDropped : Ran oneDropped := by
  refine ⟨["in".toList],
    ((Relation.ReflTransGen.refl.tail (.begins rfl)).tail (.told _ "bytes-0".toList 0)).tail ?_⟩
  exact @Step.drops _ "in".toList [] [] rfl (.ok 1)

theorem judged_truly_oneDropped :
    (oneDropped.carried.record (fun _ => []) [] [] (10 ^ 12) 0).health = .fine := by
  refine (judged_truly ran_oneDropped rfl (fun _ => []) [] (10 ^ 12) 0).2.2.2.1.mpr
    ⟨fun one hone => ?_, fun file hfile _ => ?_⟩
  · exact ⟨1, List.mem_singleton.mp hone⟩
  · rw [List.mem_singleton.mp hfile]
    exact List.mem_singleton_self _

/-- **The figures of a round are the run's.** How long each file told of took, from its drop until
it was first told of and nothing where that was before the drop was noted, the fastest first; how
many were dropped; and by name the files lost. -/
theorem figures_tell (h : Ran w) (instant : Nat) :
    let took := w.carried.took instant
    took.Pairwise (· ≤ ·) ∧
      took.Perm (w.written.filterMap fun file => (first w.heard file.1).map (· - file.2)) ∧
      w.carried.dropped.entries.length = w.written.length ∧
      ∀ name, name ∈ w.carried.named instant .lost ↔
        ∃ since, (name, since) ∈ w.written ∧ since + LOST ≤ instant ∧ ¬w.Heard name := by
  have hsound := h.sound
  refine ⟨List.pairwise_insertionSort _ _, (List.perm_insertionSort _ _).trans ?_, ?_,
    fun name => ?_⟩
  · -- a file's own fate says how long it took, where it was told of at all
    have hfigure : ∀ file : Text × Nat, (match w.carried.fate instant file with
        | .carried took => some took
        | _ => none) = (first w.heard file.1).map (· - file.2) := by
      intro file
      rw [hsound.fate_eq]
      cases first w.heard file.1 with
      | some seen => rfl
      | none =>
        dsimp only
        split_ifs <;> rfl
    simp only [hfigure]
    exact hsound.perm_files.filterMap _
  · have hlength := congrArg List.length hsound.dropped
    rwa [List.length_map, List.length_reverse] at hlength
  · -- a file is named lost where its own fate is lost
    rw [named, List.mem_map]
    constructor
    · rintro ⟨⟨name, since⟩, hfile, rfl⟩
      obtain ⟨hfile, hfate⟩ := List.mem_filter.mp hfile
      exact ⟨since, hsound.perm_files.mem_iff.mp hfile,
        hsound.fate_eq_lost.mp (of_decide_eq_true hfate)⟩
    · rintro ⟨since, hfile, hlost⟩
      exact ⟨(name, since), List.mem_filter.mpr ⟨hsound.perm_files.mem_iff.mpr hfile,
        decide_eq_true (hsound.fate_eq_lost.mpr hlost)⟩, rfl⟩

theorem figures_tell_oneDropped : (oneDropped.carried.took 5).Perm [0] :=
  (figures_tell ran_oneDropped 5).2.1

/-! ### What becomes of a file -/

private theorem Step.grows {w w' : World} (h : Step w w') :
    w.written <+: w'.written ∧ w.heard <+: w'.heard := by
  cases h with
  | told name now => exact ⟨List.prefix_refl _, List.prefix_append _ _⟩
  | seen names now => exact ⟨List.prefix_refl _, List.prefix_append _ _⟩
  | begins hround => exact ⟨List.prefix_refl _, List.prefix_refl _⟩
  | drops hround written => exact ⟨List.prefix_append _ _, List.prefix_refl _⟩
  | ends hround => exact ⟨List.prefix_refl _, List.prefix_refl _⟩

private theorem Steps.grows {w w' : World} (h : Steps w w') :
    w.written <+: w'.written ∧ w.heard <+: w'.heard := by
  induction h with
  | refl => exact ⟨List.prefix_refl _, List.prefix_refl _⟩
  | tail _ hstep ih => exact ⟨ih.1.trans hstep.grows.1, ih.2.trans hstep.grows.2⟩

/-- **A file once carried stays so**, and took as long, however often it is told of again; a file
lost stays lost until it is told of; and a file overdue is not young again. -/
theorem fate_kept (h : Ran w) {w' : World} (hsteps : Steps w w') {file : Text × Nat}
    (hfile : file ∈ w.written) {instant instant' : Nat} (hlater : instant ≤ instant') :
    file ∈ w'.written ∧
      (∀ took, w.carried.fate instant file = .carried took →
        w'.carried.fate instant' file = .carried took) ∧
      (w.carried.fate instant file = .lost → w'.carried.fate instant' file = .lost ∨
        w'.Heard file.1) ∧
      (w.carried.fate instant file = .overdue → w'.carried.fate instant' file ≠ .young) := by
  obtain ⟨hwritten, more, hmore⟩ := hsteps.grows
  have hran' : Ran w' := by
    obtain ⟨drops, hbefore⟩ := h
    exact ⟨drops, hbefore.trans hsteps⟩
  have hsound := h.sound
  have hsound' := hran'.sound
  refine ⟨hwritten.subset hfile, fun took hfate => ?_, fun hfate => ?_, fun hfate => ?_⟩
  · -- what was told of first stays the first, whatever is told of later
    rw [hsound.fate_eq] at hfate
    rw [hsound'.fate_eq, ← hmore, first_append]
    cases hfirst : first w.heard file.1 with
    | some seen =>
      rw [hfirst] at hfate
      exact hfate
    | none =>
      rw [hfirst] at hfate
      dsimp only at hfate
      split_ifs at hfate
  · -- lost, and not told of since, it is lost later too
    obtain ⟨hlong, -⟩ := hsound.fate_eq_lost.mp hfate
    by_cases hheard : w'.Heard file.1
    · exact .inr hheard
    · exact .inl (hsound'.fate_eq_lost.mpr ⟨hlong.trans hlater, hheard⟩)
  · -- overdue, it is no longer young whatever the instant
    obtain ⟨⟨hlong, -⟩, -⟩ := hsound.fate_eq_overdue.mp hfate
    rw [hsound'.fate_eq]
    cases first w'.heard file.1 with
    | some seen => exact nofun
    | none =>
      dsimp only
      have hgrace := (waited_iff GRACE_pos).mpr (hlong.trans hlater)
      rw [if_pos hgrace]
      split_ifs <;> exact nofun

theorem fate_kept_oneDropped :
    (told 7 oneDropped.carried "bytes-0".toList).fate 9 ("bytes-0".toList, 1) = .carried 0 :=
  (fate_kept ran_oneDropped (.single (.told _ "bytes-0".toList 7)) (List.mem_singleton_self _)
    (Nat.le_add_left 4 5)).2.1 0 rfl

end Carried

end Delivery

end XmipEssentials
