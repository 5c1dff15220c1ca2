import Mathlib.Data.List.Infix
import XmipEssentials.Lib.Files
import XmipEssentials.Lib.Prog

/-!
# The pickup

A lane of items in a directory, the locks a reader takes, the done record every holder signs, and
the reader itself. A reader claims an item, or a key of items, by creating its lock where there was
none; it reads the item, takes the next tick of its process's clock, signs, and removes the item.

The lanes of one style lie beside each other in one directory: an unshared reader scans its
process's own, a shared one every lane it finds.
-/

namespace XmipEssentials.ExclusiveClaim

open Text Conc Files

/-! ### A lane's names -/

/-- Order keys. -/
def KEYS : Nat := 2

/-- Items per key. -/
def PER_KEY : Nat := 3

/-- How many times a reader rescans before it gives up on a lane that will not drain. -/
def SCANS : Nat := 64

/-- A lane, by the name of its directory. -/
abbrev Lane : Type := Text

/-- What an item's name starts with. -/
def itemPrefix : Text := ['i', 't', 'e', 'm', '_']

/-- The item of a key at its place in the sequence. -/
def itemName (key seq : Nat) : Text := itemPrefix ++ decimal key ++ '_' :: decimal seq

/-- The places of a lane's items, keys first. -/
def places : List (Nat × Nat) :=
  (List.range KEYS).flatMap fun key => (List.range PER_KEY).map fun seq => (key, seq)

/-- What stands between an item and its holder in a done record's name. -/
def doneMark : Text := ['.', 'd', 'o', 'n', 'e', '.']

/-- The lock of an item. -/
def itemLock (item : Text) : Text := withExtension item ['l', 'o', 'c', 'k']

/-- The lock of a key. -/
def keyLock (key : Nat) : Text := ['k', 'e', 'y', '_'] ++ decimal key ++ ['.', 'l', 'o', 'c', 'k']

/-- The done record of an item by its holder. -/
def doneName (item holder : Text) : Text := withExtension item (['d', 'o', 'n', 'e', '.'] ++ holder)

/-- What a done record of an injected breach says after its order. -/
def injectedNote : Text := ['i', 'n', 'j', 'e', 'c', 't', 'e', 'd']

/-- What a holder writes in its done record. -/
def doneContent (order : Nat) (injected : Bool) : Text :=
  decimal order ++ if injected then ' ' :: injectedNote else []

/-- `t` without the prefixes `pre` it starts with, at most `fuel` of them. -/
def trimStart (pre : Text) : Nat → Text → Text
  | 0, t => t
  | fuel + 1, t => if pre ≠ [] ∧ pre <+: t then trimStart pre fuel (t.drop pre.length) else t

/-- `item_<key>_<seq>` → (key, seq); zeros where it does not parse. -/
def parse (name : Text) : Nat × Nat :=
  let parts := (trimStart itemPrefix name.length name).splitOn '_'
  ((parts[0]?.bind parseNat).getD 0, (parts[1]?.bind parseNat).getD 0)

/-- One item processed by one holder, read back from its done record. -/
structure Processed where
  item : Text
  key : Nat
  seq : Nat
  holder : Text
  order : Nat
  injected : Bool
  deriving DecidableEq, Repr

/-- What a done record of that item and holder says. -/
def Processed.ofContent (item holder content : Text) : Processed where
  item := item
  key := (parse item).1
  seq := (parse item).2
  holder := holder
  order := ((firstWord content).bind parseNat).getD 0
  injected := injectedNote <:+: content

/-! ### Calls -/

/-- What a call is to the one who makes it. -/
inductive Note where
  | plain
  /-- Take a lock. -/
  | lock
  /-- Create a done record. -/
  | sign
  /-- Write the done record created. -/
  | wrote (order : Nat)
  /-- The judge lists the done records. -/
  | look
  /-- The judge reads one of them. -/
  | see
  /-- The judge lists the items left. -/
  | find

/-- A call of a pickup, by what it answers. -/
inductive PickupOp : Type → Type 1 where
  /-- A call on the lanes of one style. -/
  | file {β : Type} (op : FileOp Lane Char β) (note : Note) : PickupOp (Except Text β)
  /-- Remove a directory and what is in it. -/
  | removeDir (d : Lane) : PickupOp (Except Text Unit)
  /-- Give a directory another name, which none or an empty one has. -/
  | renameDir (old new : Lane) : PickupOp (Except Text Unit)
  /-- The directories of the style. -/
  | lanes : PickupOp (Except Text (List Lane))
  /-- The next tick of a clock. -/
  | tick (clock : Text) : PickupOp Nat
  /-- How often the judge may look before its wait has run out. -/
  | patience : PickupOp Nat

/-- The program of one call on the lanes. -/
def file {β : Type} (op : FileOp Lane Char β) (note : Note) : Prog PickupOp (Except Text β) :=
  Prog.perform (.file op note)

/-- What is told of a lane's judge: what it has read since it last listed the done records, whether
it was late, and whether it found the lane drained. -/
structure Watch where
  /-- Since the judge last listed the done records, one was created, or one it had already read was
  written an order other than the zero it reads as while empty. -/
  late : Bool
  seen : List Text
  found : Bool

/-- The lanes of one style, the clocks of the processes, who took each lock, and what is told of
each lane's judge. -/
structure State (ι : Type) where
  store : Store Lane Char
  clock : Text → Nat
  lockedBy : Lane → Text → Option ι
  watch : Lane → Watch

/-- A name among a lane's files that an item has: one that starts as items do, without extension. -/
def IsItem (name : Text) : Prop := itemPrefix <+: name ∧ '.' ∉ name

instance : DecidablePred IsItem := fun _ => inferInstanceAs (Decidable (_ ∧ _))

namespace State

variable {ι : Type}

/-- The content of a file of a lane. -/
def file (s : State ι) (lane : Lane) (name : Text) : Option Text := s.store.file lane name

/-- What is told of a lane's judge is `w`. -/
def watched (s : State ι) (lane : Lane) (w : Watch) : State ι :=
  { s with watch := Function.update s.watch lane w }

/-- What is told of the call that thread `i` made. -/
def noted (s : State ι) (i : ι) : {β : Type} → FileOp Lane Char β → Note → Except Text β → State ι
  | _, .createNew lane name, .lock, .ok () =>
    { s with
      lockedBy := Function.update s.lockedBy lane
        (Function.update (s.lockedBy lane) name (some i)) }
  -- a record the judge has not listed
  | _, .createNew lane _, .sign, .ok () => s.watched lane { s.watch lane with late := true }
  | _, .write lane name _, .wrote order, _ =>
    if name ∈ (s.watch lane).seen ∧ order ≠ 0 then
      s.watched lane { s.watch lane with late := true }
    else s
  -- the judge looks anew, and nothing is late yet
  | _, .list lane, .look, _ => s.watched lane ⟨false, [], false⟩
  | _, .read lane name, .see, _ =>
    s.watched lane { s.watch lane with seen := name :: (s.watch lane).seen }
  | _, .list lane, .find, names =>
    s.watched lane { s.watch lane with found := (names.toOption.getD []).filter IsItem = [] }
  | _, _, _, _ => s

theorem noted_write (s : State ι) (i : ι) (lane : Lane) (name content : Text) (order : Nat)
    (b : Except Text Unit) : s.noted i (.write lane name content) (.wrote order) b =
      if name ∈ (s.watch lane).seen ∧ order ≠ 0 then
        s.watched lane { s.watch lane with late := true }
      else s := rfl

end State

/-- What each call may answer and leave. -/
def exec {ι : Type} : Exec ι PickupOp (State ι)
  | i, _, .file op note, s, b, s' =>
    ∃ store, op.Does s.store b store ∧ s' = State.noted { s with store } i op note b
  | _, _, .removeDir d, s, b, s' =>
    match s.store d with
    | some _ => b = .ok () ∧ s' = { s with store := s.store.drop d }
    | none => (∃ why, b = .error why) ∧ s' = s
  | _, _, .renameDir old new, s, b, s' =>
    match s.store old with
    | some dir =>
      if ∀ there ∈ s.store new, there = ∅ then
        b = .ok () ∧ s' = { s with store := (s.store.drop old).set new dir }
      else (∃ why, b = .error why) ∧ s' = s
    | none => (∃ why, b = .error why) ∧ s' = s
  | _, _, .lanes, s, b, s' =>
    s' = s ∧ ((∃ why, b = .error why) ∨
      ∃ names : List Lane, b = .ok names ∧ ∀ d, d ∈ names ↔ (s.store d).isSome)
  | _, _, .tick clock, s, b, s' =>
    b = s.clock clock ∧ s' = { s with clock := Function.update s.clock clock (s.clock clock + 1) }
  | _, _, .patience, s, _, s' => s' = s

/-- Every call answers. -/
theorem exec_total {ι : Type} : Exec.Total (@exec ι) := by
  intro i β op s
  cases op with
  | file op note =>
    obtain ⟨b, store, hdoes⟩ := op.exists_does s.store
    exact ⟨b, _, store, hdoes, rfl⟩
  | removeDir d =>
    cases h : s.store d with
    | some dir => exact ⟨.ok (), { s with store := s.store.drop d }, by simp [exec, h]⟩
    | none => exact ⟨.error [], s, by simp [exec, h]⟩
  | renameDir old new =>
    cases h : s.store old with
    | none => exact ⟨.error [], s, by simp [exec, h]⟩
    | some dir =>
      -- a directory is renamed where nothing stands at its new name
      by_cases hnew : ∀ there ∈ s.store new, there = ∅
      · refine ⟨.ok (), { s with store := (s.store.drop old).set new dir }, ?_⟩
        simp only [exec, h, if_pos hnew, and_self]
      · refine ⟨.error [], s, ?_⟩
        simp only [exec, h, if_neg hnew, and_true]
        exact ⟨[], rfl⟩
  | lanes => exact ⟨.error [], s, rfl, .inl ⟨[], rfl⟩⟩
  | tick clock => exact ⟨_, _, rfl, rfl⟩
  | patience => exact ⟨0, s, rfl⟩

/-! ### The lane -/

/-- The items in a lane. -/
def list (lane : Lane) (note : Note) : Prog PickupOp (List Text) := do
  match ← file (.list lane) note with
  | .error _ => pure []
  | .ok names => pure (names.filter IsItem)

/-- Atomically take a lock: `true` for the one creator, `false` for everyone else. -/
def claimed (lane : Lane) (lock : Text) : Prog PickupOp Bool := do
  let made ← file (.createNew lane lock) .lock
  pure made.isOk

/-- Lay one item. -/
def lay (lane : Lane) (item : Text) : Prog PickupOp Bool := do
  match ← file (.create lane item) .plain with
  | .error _ => pure false
  | .ok () =>
    let written ← file (.write lane item ['x']) .plain
    pure written.isOk

/-- Lay the items in the lane, staged behind a dot and renamed into place, so that no reader sees a
half-filled lane: how many were laid. -/
def stageLane (lane : Lane) : Prog PickupOp (Option Nat) := do
  let staging := '.' :: lane
  -- an earlier attempt may have been cut off in here
  let _ ← Prog.perform (.removeDir staging)
  match ← file (.makeDir staging) .plain with
  | .error _ => pure none
  | .ok () =>
    let laid ← Prog.each (fun place => lay staging (itemName place.1 place.2)) places
    match ← Prog.perform (.renameDir staging lane) with
    | .error _ => pure none
    | .ok () => pure (some (laid.count true))

/-- Tear a judged lane down, in a few tries. -/
def removeLane (lane : Lane) : Nat → Prog PickupOp Unit
  | 0 => pure ()
  | tries + 1 => do
    match ← Prog.perform (.removeDir lane) with
    | .ok () => pure ()
    | .error _ => removeLane lane tries

/-- One done record read, where the name is that of one. -/
def readDone (lane : Lane) (name : Text) : Prog PickupOp (Option Processed) :=
  match splitOnce doneMark name with
  | none => pure none
  | some (item, holder) => do
    let content ← file (.read lane name) .see
    pure (some (Processed.ofContent item holder (content.toOption.getD [])))

/-- Every done record in a lane. -/
def ledger (lane : Lane) : Prog PickupOp (List Processed) := do
  match ← file (.list lane) .look with
  | .error _ => pure []
  | .ok names =>
    let records ← Prog.each (readDone lane) names
    pure (records.filterMap id)

/-! ### The reader -/

/-- One reader: which lanes it scans and how it signs what it did. -/
structure Reader where
  holder : Text
  clock : Text
  shared : Bool
  own : Lane

namespace Reader

/-- The lanes to scan: every process's when shared, one still being staged behind a dot aside; else
only this one's. -/
def lanes (r : Reader) : Prog PickupOp (List Lane) :=
  if r.shared then do
    match ← Prog.perform .lanes with
    | .error _ => pure []
    | .ok names => pure (names.filter fun name => name.head? ≠ some '.')
  else pure [r.own]

/-- Sign the done record of an item: create it, then write it. -/
def sign (r : Reader) (lane : Lane) (item : Text) (order : Nat) (injected : Bool) :
    Prog PickupOp Unit := do
  -- created empty, and read as order zero until it is written
  match ← file (.createNew lane (doneName item r.holder)) .sign with
  | .error _ => pure ()
  | .ok () =>
    let _ ← file (.write lane (doneName item r.holder) (doneContent order injected)) (.wrote order)
    pure ()

/-- Process one item: read it, sign, and consume it — unless this is the injected breach, which
leaves the item for the next reader. -/
def process (r : Reader) (lane : Lane) (item : Text) (injected : Bool) : Prog PickupOp Unit := do
  match ← file (.read lane item) .plain with
  | .error _ => pure ()
  | .ok _ =>
    -- the order is taken before the record is there for anyone to see
    let order ← Prog.perform (.tick r.clock)
    r.sign lane item order injected
    -- the breach: the item stays for the next reader
    if injected then pure ()
    else do
      let _ ← file (.remove lane item) .plain
      pure ()

/-- Claim one item, and process it where the claim was won. -/
def claimItem (r : Reader) (lane : Lane) (item : Text) : Prog PickupOp Unit := do
  if ← claimed lane (itemLock item) then r.process lane item false else pure ()

/-- The honest claim, item by item. -/
def perItem (r : Reader) (lane : Lane) : Prog PickupOp Unit := do
  (← list lane .plain).forM (r.claimItem lane)

/-- Claim one key, and process its items in sequence where the claim was won. -/
def claimKey (r : Reader) (lane : Lane) (key : Nat) : Prog PickupOp Unit := do
  if ← claimed lane (keyLock key) then
    -- whoever has the key has all of it, in sequence
    (List.range PER_KEY).forM fun seq => r.process lane (itemName key seq) false
  else pure ()

/-- The honest claim, key by key, which keeps the order. -/
def perKey (r : Reader) (lane : Lane) : Prog PickupOp Unit :=
  (List.range KEYS).forM (r.claimKey lane)

/-- The broken claim: every reader takes every item. -/
def withoutClaiming (r : Reader) (lane : Lane) : Prog PickupOp Unit := do
  (← list lane .plain).forM fun item => r.process lane item true

/-- What a reader does in one lane. -/
def pass (r : Reader) (ordered broken : Bool) (lane : Lane) : Prog PickupOp Unit :=
  if broken then r.withoutClaiming lane
  else if ordered then r.perKey lane
  else r.perItem lane

/-- Rescan until the own lane is drained, as many times at most. -/
def scan (r : Reader) (ordered broken : Bool) : Nat → Prog PickupOp Unit
  | 0 => pure ()
  | passes + 1 => do
    (← r.lanes).forM (r.pass ordered broken)
    if (← list r.own .plain) = [] then pure () else r.scan ordered broken passes

/-- Rescan until the own lane is drained. A broken reader makes one pass. -/
def run (r : Reader) (ordered broken : Bool) : Prog PickupOp Unit :=
  r.scan ordered broken (if broken then 1 else SCANS)

end Reader

/-! ### Reading the names back -/

theorem dot_not_mem_itemName (key seq : Nat) : '.' ∉ itemName key seq := by
  have hdigit : ∀ n, '.' ∉ decimal n := fun n h => absurd (decimal_isDigit h) (by decide)
  have hprefix : '.' ∉ itemPrefix := by decide
  simp [itemName, hdigit, hprefix]

theorem isItem_itemName (key seq : Nat) : IsItem (itemName key seq) := by
  refine ⟨?_, dot_not_mem_itemName key seq⟩
  rw [itemName, List.append_assoc]
  exact List.prefix_append _ _

/-- A place reads back from its item's name. -/
theorem parse_itemName : ∀ p ∈ places, parse (itemName p.1 p.2) = p := by decide

theorem itemName_inj {p q : Nat × Nat} (hp : p ∈ places) (hq : q ∈ places)
    (h : itemName p.1 p.2 = itemName q.1 q.2) : p = q := by
  rw [← parse_itemName p hp, h, parse_itemName q hq]

private theorem doneName_eq {item : Text} (h : '.' ∉ item) (holder : Text) :
    doneName item holder = item ++ doneMark ++ holder := by
  rw [doneName, withExtension_of_not_mem h, List.append_assoc]
  rfl

/-- **The item and the holder read back from a done record's name.** -/
theorem splitOnce_doneName {item : Text} (h : '.' ∉ item) (holder : Text) :
    splitOnce doneMark (doneName item holder) = some (item, holder) := by
  rw [doneName_eq h]
  exact splitOnce_append h

theorem doneName_of_splitOnce {name item holder : Text} (hdot : '.' ∉ item)
    (h : splitOnce doneMark name = some (item, holder)) : name = doneName item holder := by
  rw [splitOnce_eq_append h, doneName_eq hdot]

theorem doneName_inj {item item' holder holder' : Text} (h : '.' ∉ item) (h' : '.' ∉ item')
    (heq : doneName item holder = doneName item' holder') : item = item' ∧ holder = holder' := by
  have hsplit := splitOnce_doneName h holder
  rw [heq, splitOnce_doneName h'] at hsplit
  simp only [Option.some.injEq, Prod.mk.injEq] at hsplit
  exact ⟨hsplit.1.symm, hsplit.2.symm⟩

/-- The lock a place is claimed by: its key's where the style is ordered, else its item's. -/
def lockOf (ordered : Bool) (p : Nat × Nat) : Text :=
  if ordered then keyLock p.1 else itemLock (itemName p.1 p.2)

theorem lockOf_inj : ∀ ordered, ∀ p ∈ places, ∀ q ∈ places,
    lockOf ordered p = lockOf ordered q → p = q ∨ (ordered = true ∧ p.1 = q.1) := by decide

theorem splitOnce_lockOf :
    ∀ ordered, ∀ p ∈ places, splitOnce doneMark (lockOf ordered p) = none := by
  decide

theorem not_isItem_lockOf : ∀ ordered, ∀ p ∈ places, ¬IsItem (lockOf ordered p) := by decide

theorem not_isItem_doneName {item : Text} (h : '.' ∉ item) (holder : Text) :
    ¬IsItem (doneName item holder) := by
  intro hitem
  apply hitem.2
  rw [doneName_eq h]
  simp [doneMark]

/-- A done record's content reads back. -/
theorem order_doneContent (order : Nat) (injected : Bool) :
    ((firstWord (doneContent order injected)).bind parseNat) = some order := by
  have hspace : ∀ c ∈ (if injected then ' ' :: injectedNote else []).head?, isWhitespace c := by
    intro c hc
    cases injected with
    | false => cases hc
    | true =>
      obtain rfl := Option.some.inj hc
      decide
  rw [doneContent, firstWord_decimal hspace, Option.bind_some, parseNat_decimal]

theorem injected_doneContent (order : Nat) (injected : Bool) :
    injectedNote <:+: doneContent order injected ↔ injected = true := by
  cases injected with
  | true =>
    refine iff_of_true ?_ rfl
    exact ⟨decimal order ++ [' '], [], by simp [doneContent]⟩
  | false =>
    refine iff_of_false (fun h => ?_) nofun
    -- The note has a letter, and the digits of an order have none.
    have hmem : 'i' ∈ doneContent order false := h.subset (by decide)
    rw [doneContent, if_neg nofun, List.append_nil] at hmem
    exact absurd (decimal_isDigit hmem) (by decide)

theorem doneContent_ne_nil (order : Nat) (injected : Bool) : doneContent order injected ≠ [] := by
  simp [doneContent, decimal_ne_nil]

theorem doneContent_inj {order order' : Nat} {injected injected' : Bool}
    (h : doneContent order injected = doneContent order' injected') : order = order' := by
  have hread := order_doneContent order injected
  rw [h, order_doneContent] at hread
  exact (Option.some.inj hread).symm

end XmipEssentials.ExclusiveClaim
