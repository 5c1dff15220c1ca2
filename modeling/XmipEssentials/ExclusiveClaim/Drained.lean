import Mathlib.Data.List.Perm.Subperm
import XmipEssentials.ExclusiveClaim.Judge
import XmipEssentials.ExclusiveClaim.Readers

/-!
# A drained lane

What the records of a lane say once honest readers have left no item in it: one record an item, in
order per key where the style keeps it, so that the judge holds the round (`judge_drained`).
-/

namespace XmipEssentials.ExclusiveClaim

open Text Conc Files

variable {ι : Type} {L : Lane} {ordered : Bool} {reader : ι → Reader} {i : ι}
  {s s' : State ι} {p : Nat × Nat} {names : List Text} {r : Processed}

/-- The record a file of the lane says, if it has a done record's name. -/
def recordOf (L : Lane) (s : State ι) (name : Text) : Option Processed :=
  (splitOnce doneMark name).map fun halves =>
    Processed.ofContent halves.1 halves.2 ((s.file L name).getD [])

/-- No item of the lane is left. -/
def Drained (L : Lane) (s : State ι) : Prop := ∀ p ∈ places, s.file L (item p) = none

/-- The names hold those of the done records there are. -/
def NamesRecords (L : Lane) (names : List Text) (s : State ι) : Prop :=
  ∀ n, (splitOnce doneMark n).isSome → (n ∈ names ↔ (s.file L n).isSome)

theorem ofContent_done (hp : p ∈ places) (holder : Text) (o : Nat) (injected : Bool) :
    Processed.ofContent (item p) holder (doneContent o injected) =
      ⟨item p, p.1, p.2, holder, o, injected⟩ := by
  unfold Processed.ofContent
  rw [parse_itemName p hp, order_doneContent, Option.getD_some]
  congr 1
  cases injected with
  | true => exact decide_eq_true ((injected_doneContent o true).mpr rfl)
  | false => exact decide_eq_false fun h => absurd ((injected_doneContent o false).mp h) nofun

/-- In a drained lane the records of an item are one. -/
theorem holder_unique (hkept : Kept L ordered reader s) (hp : p ∈ places) {h h' c c' : Text}
    (hdone : s.file L (done p h) = some c) (hdone' : s.file L (done p h') = some c') : h = h' := by
  obtain ⟨j, hj, rfl, -⟩ := hkept.owned p hp h c hdone
  obtain ⟨k, hk, rfl, -⟩ := hkept.owned p hp h' c' hdone'
  rw [hj.unique hk]

/-- Each record of a drained lane is written. -/
theorem written_of_drained (hkept : Kept L ordered reader s) (hdrained : Drained L s)
    (hp : p ∈ places) {h c : Text} (hdone : s.file L (done p h) = some c) :
    ∃ o, c = doneContent o false := by
  obtain ⟨h', o, hwritten⟩ := hkept.signed p hp (hdrained p hp)
  obtain rfl := holder_unique hkept hp hdone hwritten
  exact ⟨o, Option.some.inj (hdone.symm.trans hwritten)⟩

/-- **What the records of a drained lane say.** -/
theorem mem_records (hkept : Kept L ordered reader s) (hdrained : Drained L s)
    (hnames : NamesRecords L names s) :
    r ∈ names.filterMap (recordOf L s) ↔ ∃ p ∈ places, ∃ h o,
      s.file L (done p h) = some (doneContent o false) ∧ r = ⟨item p, p.1, p.2, h, o, false⟩ := by
  rw [List.mem_filterMap]
  constructor
  · rintro ⟨n, hn, hrecord⟩
    obtain ⟨⟨it, h⟩, hsplit, rfl⟩ := Option.map_eq_some_iff.mp hrecord
    have hthere : (s.file L n).isSome := (hnames n (by rw [hsplit]; rfl)).mp hn
    -- a record there is of an item laid, and drained it is written
    obtain ⟨p, hp, rfl⟩ := hkept.records n it h hthere hsplit
    obtain rfl := doneName_of_splitOnce (dot_not_mem_itemName _ _) hsplit
    obtain ⟨c, hc⟩ := Option.isSome_iff_exists.mp hthere
    obtain ⟨o, rfl⟩ := written_of_drained hkept hdrained hp hc
    refine ⟨p, hp, h, o, hc, ?_⟩
    rw [hc, Option.getD_some]
    exact ofContent_done hp h o false
  · -- a written record has a name the listing took, and reads as what it is
    rintro ⟨p, hp, h, o, hdone, rfl⟩
    have hsplit := splitOnce_doneName (dot_not_mem_itemName p.1 p.2) h
    refine ⟨done p h, (hnames _ (by rw [hsplit]; rfl)).mpr (by rw [hdone]; rfl), ?_⟩
    unfold recordOf
    rw [hsplit, hdone, Option.map_some, Option.getD_some]
    exact congrArg some (ofContent_done hp h o false)

/-- The records of a drained lane are as its judge asks: one holder an item, every item, and — where
keys are locked — a key's later items with larger orders. -/
theorem inOrder_records (hkept : Kept L true reader s) (hdrained : Drained L s)
    (hnames : NamesRecords L names s) :
    ∀ r ∈ names.filterMap (recordOf L s), ∀ r' ∈ names.filterMap (recordOf L s),
      r.key = r'.key → r.seq < r'.seq → r.order < r'.order := by
  intro r hr r' hr' hkey hseq
  obtain ⟨p, hp, h, o, hdone, rfl⟩ := (mem_records hkept hdrained hnames).mp hr
  obtain ⟨q, hq, h', o', hdone', rfl⟩ := (mem_records hkept hdrained hnames).mp hr'
  exact hkept.inOrder rfl p hp q hq hkey hseq h h' o o' hdone hdone'

theorem nodup_items : (places.map item).Nodup := by
  rw [List.nodup_map_iff_inj_on (by decide)]
  intro p hp q hq
  exact itemName_inj hp hq

/-- **A drained lane is held.** -/
theorem judge_drained {style : Style} (hkept : Kept L style.ordered reader s)
    (hdrained : Drained L s) (hnames : NamesRecords L names s) :
    ∃ line, judge style places.length (names.filterMap (recordOf L s)) = .held line := by
  apply judge_held
  · -- one item has one holder
    intro r hr r' hr' hitem
    obtain ⟨p, hp, h, o, hdone, rfl⟩ := (mem_records hkept hdrained hnames).mp hr
    obtain ⟨q, hq, h', o', hdone', rfl⟩ := (mem_records hkept hdrained hnames).mp hr'
    obtain rfl := itemName_inj hp hq hitem
    exact holder_unique hkept hp hdone hdone'
  · -- each item drained has its record
    have hsubset : places.map item ⊆
        ((names.filterMap (recordOf L s)).map Processed.item).dedup := by
      intro it hit
      obtain ⟨p, hp, rfl⟩ := List.mem_map.mp hit
      obtain ⟨h, o, hdone⟩ := hkept.signed p hp (hdrained p hp)
      rw [List.mem_dedup, List.mem_map]
      exact ⟨_, (mem_records hkept hdrained hnames).mpr ⟨p, hp, h, o, hdone, rfl⟩, rfl⟩
    rw [← List.length_map item]
    exact (nodup_items.subperm hsubset).length_le
  · -- and a key's records follow one another
    intro hordered
    rw [hordered] at hkept
    exact inOrder_records hkept hdrained hnames

/-! ### The judge alone in the lane -/

/-- A name read alone says its record, and leaves the lane as it was. -/
theorem runs_readDone {name : Text} {b : Option Processed}
    (h : (readDone L name).Runs exec i s b s') : b = recordOf L s name ∧ s'.store = s.store := by
  unfold readDone at h
  unfold recordOf
  split at h
  · next hsplit =>
    obtain ⟨rfl, rfl⟩ := Prog.runs_pure.mp h
    rw [hsplit]
    exact ⟨rfl, rfl⟩
  · next it holder hsplit =>
    -- a record's name is read, and its content decoded
    obtain ⟨raw, t, did, hrest⟩ := Prog.runs_perform_bind.mp h
    obtain ⟨rfl, rfl⟩ := Prog.runs_pure.mp hrest
    obtain ⟨store, hmay, rfl⟩ := exec_file did
    obtain ⟨rfl, hread, hok⟩ := hmay.read
    rw [hsplit]
    refine ⟨?_, rfl⟩
    have hcontent : raw.toOption = s.file L name := by
      -- the read comes to what is there; a file gone reads as nothing
      cases hfile : s.file L name with
      | some c => rw [hok not_false c hfile]; rfl
      | none =>
        cases raw with
        | error why => rfl
        | ok c =>
          exact absurd (hread c rfl) (by rw [show s.store.file L name = none from hfile]; nofun)
    rw [hcontent]
    rfl

/-- The ledger read alone is the records of the files there are. -/
theorem runs_ledger {processed : List Processed} (h : (ledger L).Runs exec i s processed s')
    (hdir : (s.store L).isSome) :
    s'.store = s.store ∧ ∃ names : List Text, (∀ n, n ∈ names ↔ (s.file L n).isSome) ∧
      processed = names.filterMap (recordOf L s) := by
  obtain ⟨raw, t, did, hrest⟩ := Prog.runs_perform_bind.mp h
  obtain ⟨store, hmay, rfl⟩ := exec_file did
  obtain ⟨rfl, hlist, hok⟩ := hmay.list
  obtain ⟨names, rfl⟩ := hok not_false hdir
  obtain ⟨records, u, heach, hend⟩ := Prog.runs_bind.mp hrest
  obtain ⟨rfl, rfl⟩ := Prog.runs_pure.mp hend
  -- Each name is read in a lane that is as it was.
  have hall : ∀ (l : List Text) (t u : State ι) records, t.store = s.store →
      (Prog.each (readDone L) l).Runs exec i t records u →
        u.store = s.store ∧ records = l.map (recordOf L s) := by
    intro l
    induction l with
    | nil =>
      intro t u records ht h
      obtain ⟨rfl, rfl⟩ := Prog.runs_each_nil.mp h
      exact ⟨ht, rfl⟩
    | cons n l ih =>
      intro t u records ht h
      obtain ⟨b, v, rest, hone, hrest, rfl⟩ := Prog.runs_each_cons.mp h
      obtain ⟨rfl, hv⟩ := runs_readDone hone
      obtain ⟨hu, rfl⟩ := ih v u rest (hv.trans ht) hrest
      refine ⟨hu, ?_⟩
      have hsame : recordOf L t n = recordOf L s n := by
        unfold recordOf State.file
        rw [ht]
      rw [List.map_cons, hsame]
  obtain ⟨hu, rfl⟩ := hall names _ s' records (by rfl) heach
  refine ⟨hu, names, (hlist names rfl).2, ?_⟩
  rw [List.filterMap_map]
  rfl

/-- A judge whose lane is not shared looks once. -/
theorem runs_settle_unshared {processed : List Processed}
    (h : (settle false L).Runs exec i s processed s') (hdir : (s.store L).isSome) :
    ∃ names : List Text, (∀ n, n ∈ names ↔ (s.file L n).isSome) ∧
      processed = names.filterMap (recordOf L s) := by
  obtain ⟨turns, t, rfl, hsettle⟩ := Prog.runs_perform_bind.mp h
  -- Whether or not the wait has run out, the first turn is the last.
  cases turns with
  | zero =>
    obtain ⟨records, u, hledger, hrest⟩ := Prog.runs_bind.mp hsettle
    obtain ⟨left, v, -, hend⟩ := Prog.runs_bind.mp hrest
    obtain ⟨rfl, -⟩ := Prog.runs_pure.mp hend
    exact (runs_ledger hledger hdir).2
  | succ turns =>
    obtain ⟨records, u, hledger, hrest⟩ := Prog.runs_bind.mp hsettle
    obtain ⟨left, v, -, hend⟩ := Prog.runs_bind.mp hrest
    rw [if_pos (.inl rfl)] at hend
    obtain ⟨rfl, -⟩ := Prog.runs_pure.mp hend
    exact (runs_ledger hledger hdir).2

end XmipEssentials.ExclusiveClaim
