import XmipEssentials.ExclusiveClaim.Pickup

/-!
# One lane under honest readers

Honest readers move a lane in five ways (`Move`): one of them takes a free lock, and the one that
took the lock of an item creates its done record, writes it, and removes the item; the judge only
looks. What every move keeps is `Kept`: an item gone has a written done record, an item has one done
record at most, by the one who took its lock, and the records of a key carry increasing orders.

`safe_process` is the outline of one item processed by the one who took its lock, and `safe_run`
that of a whole reader: where it ends, it has left nothing it took, and its own lane, where it scans
no other, has every lock taken.
-/

namespace XmipEssentials.ExclusiveClaim

open Text Conc Files

variable {ι : Type}

/-! ### What holds of a lane -/

/-- The item at a place. -/
abbrev item (p : Nat × Nat) : Text := itemName p.1 p.2

/-- The done record of the item at a place. -/
abbrev done (p : Nat × Nat) (holder : Text) : Text := doneName (item p) holder

section

variable (L : Lane) (ordered : Bool)

/-- Thread `i` took the lock of the place. -/
def Owns (i : ι) (p : Nat × Nat) (s : State ι) : Prop :=
  (s.file L (lockOf ordered p)).isSome ∧ s.lockedBy L (lockOf ordered p) = some i

/-- No done record of the place was created. -/
def Unsigned (p : Nat × Nat) (s : State ι) : Prop := ∀ holder, s.file L (done p holder) = none

/-- What holds of a lane under honest readers. -/
structure Kept (reader : ι → Reader) (s : State ι) : Prop where
  dir : (s.store L).isSome
  items : ∀ n, (s.file L n).isSome → IsItem n → ∃ p ∈ places, n = item p
  records : ∀ n it h, (s.file L n).isSome → splitOnce doneMark n = some (it, h) →
    ∃ p ∈ places, it = item p
  locks : ∀ p ∈ places, (s.file L (lockOf ordered p)).isSome → ∃ i, Owns L ordered i p s
  signed : ∀ p ∈ places, s.file L (item p) = none →
    ∃ h o, s.file L (done p h) = some (doneContent o false)
  owned : ∀ p ∈ places, ∀ h c, s.file L (done p h) = some c →
    ∃ i, Owns L ordered i p s ∧ h = (reader i).holder ∧
      (c = [] ∨ ∃ o < s.clock (reader i).clock, c = doneContent o false)
  inOrder : ordered = true → ∀ p ∈ places, ∀ q ∈ places, p.1 = q.1 → p.2 < q.2 →
    ∀ h h' o o', s.file L (done p h) = some (doneContent o false) →
      s.file L (done q h') = some (doneContent o' false) → o < o'

/-- The file `name` of the lane is now `c`, and every other as it was. -/
structure Sets (s : State ι) (name : Text) (c : Option Text) (s' : State ι) : Prop where
  dir : (s'.store L).isSome
  files : ∀ n, s'.file L n = if n = name then c else s.file L n
  clock : s'.clock = s.clock

/-- The files of the lane, and who took its locks, are as they were. -/
structure Still (s s' : State ι) : Prop where
  dir : (s.store L).isSome → (s'.store L).isSome
  files : ∀ n, s'.file L n = s.file L n
  lockedBy : s'.lockedBy L = s.lockedBy L
  clock : ∀ c, s.clock c ≤ s'.clock c

/-- One step of thread `i` on a lane, and the place whose item it processes, if it does. -/
inductive Move (reader : ι → Reader) (judge i : ι) :
    Option (Nat × Nat) → State ι → State ι → Prop where
  /-- A step elsewhere, or one that reads. -/
  | still {x : Option (Nat × Nat)} {s s' : State ι} (still : Still L s s')
      (watch : s'.watch L = s.watch L) : Move reader judge i x s s'
  /-- The judge's looks change nothing but what is told of them. -/
  | judged {s s' : State ι} (who : i = judge) (still : Still L s s') : Move reader judge i none s s'
  | lock {p : Nat × Nat} {s s' : State ι} (place : p ∈ places)
      (free : s.file L (lockOf ordered p) = none) (sets : Sets L s (lockOf ordered p) (some []) s')
      (owns : s'.lockedBy L = Function.update (s.lockedBy L) (lockOf ordered p) (some i))
      (watch : s'.watch L = s.watch L) : Move reader judge i none s s'
  | sign {p : Nat × Nat} {s s' : State ι} (place : p ∈ places) (owns : Owns L ordered i p s)
      (here : (s.file L (item p)).isSome) (unsigned : Unsigned L p s)
      (sets : Sets L s (done p (reader i).holder) (some []) s')
      (lockedBy : s'.lockedBy L = s.lockedBy L)
      (watch : s'.watch L = { s.watch L with late := true }) :
      Move reader judge i (some p) s s'
  | write {p : Nat × Nat} {s s' : State ι} {o : Nat} (place : p ∈ places)
      (owns : Owns L ordered i p s) (here : (s.file L (item p)).isSome)
      (empty : s.file L (done p (reader i).holder) = some [])
      (fresh : o < s.clock (reader i).clock)
      (last : ordered = true → ∀ q ∈ places, q.1 = p.1 → ∀ h o',
        s.file L (done q h) = some (doneContent o' false) → q.2 < p.2 ∧ o' < o)
      (sets : Sets L s (done p (reader i).holder) (some (doneContent o false)) s')
      (lockedBy : s'.lockedBy L = s.lockedBy L)
      (watch : s'.watch L =
        if done p (reader i).holder ∈ (s.watch L).seen ∧ o ≠ 0 then { s.watch L with late := true }
        else s.watch L) :
      Move reader judge i (some p) s s'
  | remove {p : Nat × Nat} {s s' : State ι} {o : Nat} (place : p ∈ places)
      (owns : Owns L ordered i p s)
      (written : s.file L (done p (reader i).holder) = some (doneContent o false))
      (sets : Sets L s (item p) none s') (lockedBy : s'.lockedBy L = s.lockedBy L)
      (watch : s'.watch L = s.watch L) : Move reader judge i (some p) s s'

end

variable {L : Lane} {ordered : Bool} {reader : ι → Reader} {judge i j : ι} {x : Option (Nat × Nat)}
  {p q : Nat × Nat} {s s' : State ι}

/-! ### Names apart -/

theorem item_ne_lockOf (p : Nat × Nat) (hq : q ∈ places) : item p ≠ lockOf ordered q := by
  intro heq
  have hitem : IsItem (item p) := isItem_itemName _ _
  rw [heq] at hitem
  exact not_isItem_lockOf ordered q hq hitem

theorem item_ne_done (p q : Nat × Nat) (h : Text) : item p ≠ done q h := by
  intro heq
  have hitem : IsItem (item p) := isItem_itemName _ _
  rw [heq] at hitem
  exact not_isItem_doneName (dot_not_mem_itemName _ _) h hitem

theorem lockOf_ne_done (hp : p ∈ places) (q : Nat × Nat) (h : Text) :
    lockOf ordered p ≠ done q h := by
  intro heq
  have hsplit := splitOnce_lockOf ordered p hp
  rw [heq, splitOnce_doneName (dot_not_mem_itemName _ _)] at hsplit
  cases hsplit

theorem done_inj (hp : p ∈ places) (hq : q ∈ places) {h h' : Text} (heq : done p h = done q h') :
    p = q ∧ h = h' := by
  obtain ⟨hitem, hholder⟩ :=
    doneName_inj (dot_not_mem_itemName _ _) (dot_not_mem_itemName _ _) heq
  exact ⟨itemName_inj hp hq hitem, hholder⟩

theorem Sets.self {name : Text} {c : Option Text} (h : Sets L s name c s') :
    s'.file L name = c := by
  rw [h.files, if_pos rfl]

theorem Sets.other {name n : Text} {c : Option Text} (h : Sets L s name c s') (hne : n ≠ name) :
    s'.file L n = s.file L n := by
  rw [h.files, if_neg hne]

/-! ### What moves keep -/

theorem Still.refl (s : State ι) : Still L s s := ⟨id, fun _ => rfl, rfl, fun _ => le_refl _⟩

/-- One owner at a time. -/
theorem Owns.unique (hi : Owns L ordered i p s) (hj : Owns L ordered j p s) : i = j :=
  Option.some.inj (hi.2.symm.trans hj.2)

/-- Places of one lock have one owner. -/
theorem Owns.same (hi : Owns L ordered i p s) (h : lockOf ordered p = lockOf ordered q) :
    Owns L ordered i q s := by
  unfold Owns at hi ⊢
  rwa [← h]

theorem Owns.of_still (h : Owns L ordered i p s) (hs : Still L s s') : Owns L ordered i p s' := by
  unfold Owns at h ⊢
  rwa [hs.files, hs.lockedBy]

private theorem Owns.of_sets {name : Text} {c : Option Text} (h : Owns L ordered i p s)
    (hsets : Sets L s name c s') (hby : s'.lockedBy L = s.lockedBy L)
    (hne : lockOf ordered p ≠ name) : Owns L ordered i p s' := by
  unfold Owns at h ⊢
  rwa [hsets.other hne, hby]

/-- A lock once taken stays with the one who took it. -/
theorem Owns.move (hp : p ∈ places) (h : Owns L ordered i p s)
    (hmove : Move L ordered reader judge j x s s') : Owns L ordered i p s' := by
  cases hmove with
  | still still watch => exact h.of_still still
  | judged who still => exact h.of_still still
  | @lock q s s' place free sets owns watch =>
    -- the lock taken was free, and one owned is not
    have hne : lockOf ordered p ≠ lockOf ordered q := by
      intro heq
      have htaken := h.1
      rw [heq, free] at htaken
      cases htaken
    unfold Owns at h ⊢
    rw [sets.other hne, owns, Function.update_of_ne hne]
    exact h
  -- what is signed, written or removed is never a lock
  | sign place owns here unsigned sets lockedBy watch =>
    exact h.of_sets sets lockedBy (lockOf_ne_done hp _ _)
  | write place owns here empty fresh last sets lockedBy watch =>
    exact h.of_sets sets lockedBy (lockOf_ne_done hp _ _)
  | remove place owns written sets lockedBy watch =>
    exact h.of_sets sets lockedBy (item_ne_lockOf _ hp).symm

/-- Nobody comes to own a lock but by taking it. -/
theorem Owns.back (hp : p ∈ places) (h : Owns L ordered i p s')
    (hmove : Move L ordered reader judge j x s s') (hother : j ≠ i ∨ x ≠ none) :
    Owns L ordered i p s := by
  have hsets {name : Text} {c : Option Text} (hsets : Sets L s name c s')
      (hby : s'.lockedBy L = s.lockedBy L) (hne : lockOf ordered p ≠ name) :
      Owns L ordered i p s := by
    unfold Owns at h ⊢
    rwa [hsets.other hne, hby] at h
  have hstill (hstill : Still L s s') : Owns L ordered i p s := by
    unfold Owns at h ⊢
    rwa [hstill.files, hstill.lockedBy] at h
  cases hmove with
  | still still watch => exact hstill still
  | judged who still => exact hstill still
  | @lock q s s' place free sets owns watch =>
    -- were it this lock, its taking would name another holder than it has
    have hne : lockOf ordered p ≠ lockOf ordered q := by
      intro heq
      have hby := h.2
      rw [heq, owns, Function.update_self] at hby
      exact hother.elim (fun hne => hne (Option.some.inj hby)) (fun hne => hne rfl)
    unfold Owns at h ⊢
    rwa [sets.other hne, owns, Function.update_of_ne hne] at h
  | sign place owns here unsigned sets lockedBy watch =>
    exact hsets sets lockedBy (lockOf_ne_done hp _ _)
  | write place owns here empty fresh last sets lockedBy watch =>
    exact hsets sets lockedBy (lockOf_ne_done hp _ _)
  | remove place owns written sets lockedBy watch =>
    exact hsets sets lockedBy (item_ne_lockOf _ hp).symm

/-- An item is taken away by the one who took its lock, as it processes it. -/
theorem here_move (hp : p ∈ places) (howns : Owns L ordered i p s) (h : (s.file L (item p)).isSome)
    (hmove : Move L ordered reader judge j x s s') (hother : j ≠ i ∨ x ≠ some p) :
    (s'.file L (item p)).isSome := by
  cases hmove with
  | still still watch => rwa [still.files]
  | judged who still => rwa [still.files]
  | lock place free sets owns watch => rwa [sets.other (item_ne_lockOf _ place)]
  | sign place owns here unsigned sets lockedBy watch => rwa [sets.other (item_ne_done _ _ _)]
  | write place owns here empty fresh last sets lockedBy watch =>
    rwa [sets.other (item_ne_done _ _ _)]
  | @remove q s s' o place owns written sets lockedBy watch =>
    have hne : item p ≠ item q := by
      intro heq
      obtain rfl := itemName_inj hp place heq
      exact hother.elim (fun hne => hne (owns.unique howns)) (fun hne => hne rfl)
    rwa [sets.other hne]

/-- An item gone stays gone. -/
theorem gone_move (h : s.file L (item p) = none) (hmove : Move L ordered reader judge j x s s') :
    s'.file L (item p) = none := by
  cases hmove with
  | still still watch => rwa [still.files]
  | judged who still => rwa [still.files]
  | lock place free sets owns watch => rwa [sets.other (item_ne_lockOf _ place)]
  | sign place owns here unsigned sets lockedBy watch => rwa [sets.other (item_ne_done _ _ _)]
  | write place owns here empty fresh last sets lockedBy watch =>
    rwa [sets.other (item_ne_done _ _ _)]
  | @remove q s s' o place owns written sets lockedBy watch =>
    by_cases heq : item p = item q
    · rw [heq, sets.self]
    · rwa [sets.other heq]

/-- A done record is created and written by the one who took the item's lock, as it processes it. -/
theorem done_move (hp : p ∈ places) (howns : Owns L ordered i p s) (h : Text)
    (hmove : Move L ordered reader judge j x s s') (hother : j ≠ i ∨ x ≠ some p) :
    s'.file L (done p h) = s.file L (done p h) := by
  have hapart {q : Nat × Nat} (hq : q ∈ places) (howner : Owns L ordered j q s)
      (hx : x = some q) (h' : Text) : done p h ≠ done q h' := by
    intro heq
    obtain ⟨rfl, -⟩ := done_inj hp hq heq
    exact hother.elim (fun hne => hne (howner.unique howns)) (fun hne => hne hx)
  cases hmove with
  | still still watch => rw [still.files]
  | judged who still => rw [still.files]
  | lock place free sets owns watch => rw [sets.other (lockOf_ne_done place _ _).symm]
  | sign place owns here unsigned sets lockedBy watch => rw [sets.other (hapart place owns rfl _)]
  | write place owns here empty fresh last sets lockedBy watch =>
    rw [sets.other (hapart place owns rfl _)]
  | remove place owns written sets lockedBy watch => rw [sets.other (item_ne_done _ _ _).symm]

theorem clock_move (hmove : Move L ordered reader judge j x s s') (c : Text) :
    s.clock c ≤ s'.clock c := by
  cases hmove with
  | still still watch => exact still.clock c
  | judged who still => exact still.clock c
  | lock place free sets owns watch => rw [sets.clock]
  | sign place owns here unsigned sets lockedBy watch => rw [sets.clock]
  | write place owns here empty fresh last sets lockedBy watch => rw [sets.clock]
  | remove place owns written sets lockedBy watch => rw [sets.clock]

theorem Kept.still (h : Kept L ordered reader s) (hstill : Still L s s') :
    Kept L ordered reader s' where
  -- nothing of the lane changed, so each clause is the one before, and the clock only grows
  dir := hstill.dir h.dir
  items n := by
    rw [hstill.files]
    exact h.items n
  records n it holder := by
    rw [hstill.files]
    exact h.records n it holder
  locks p hp hlock := by
    rw [hstill.files] at hlock
    obtain ⟨i, hi⟩ := h.locks p hp hlock
    exact ⟨i, hi.of_still hstill⟩
  signed p hp hgone := by
    rw [hstill.files] at hgone
    obtain ⟨holder, o, hdone⟩ := h.signed p hp hgone
    exact ⟨holder, o, by rwa [hstill.files]⟩
  owned p hp holder c hdone := by
    rw [hstill.files] at hdone
    obtain ⟨i, hi, hholder, hc⟩ := h.owned p hp holder c hdone
    refine ⟨i, hi.of_still hstill, hholder, hc.imp_right ?_⟩
    rintro ⟨o, ho, hc⟩
    exact ⟨o, ho.trans_le (hstill.clock _), hc⟩
  inOrder hordered p hp q hq hkey hseq holder holder' o o' := by
    rw [hstill.files, hstill.files]
    exact h.inOrder hordered p hp q hq hkey hseq holder holder' o o'

/-- A lock taken. -/
theorem Kept.lock (h : Kept L ordered reader s) {place : Nat × Nat} (hplace : place ∈ places)
    (hmove : Move L ordered reader judge j x s s')
    (hsets : Sets L s (lockOf ordered place) (some []) s')
    (howns : s'.lockedBy L = Function.update (s.lockedBy L) (lockOf ordered place) (some j)) :
    Kept L ordered reader s' where
  dir := hsets.dir
  -- a lock is no item and no record, so what is said of those stands
  items n hn hitem := by
    have hne : n ≠ lockOf ordered place := fun heq =>
      not_isItem_lockOf ordered place hplace (heq ▸ hitem)
    rw [hsets.other hne] at hn
    exact h.items n hn hitem
  records n it holder hn hsplit := by
    have hne : n ≠ lockOf ordered place := by
      intro heq
      rw [heq, splitOnce_lockOf ordered place hplace] at hsplit
      cases hsplit
    rw [hsets.other hne] at hn
    exact h.records n it holder hn hsplit
  locks p hp hlock := by
    -- the lock just taken has an owner; every other one had one
    by_cases heq : lockOf ordered p = lockOf ordered place
    · exact ⟨j, hlock, by rw [heq, howns, Function.update_self]⟩
    · rw [hsets.other heq] at hlock
      obtain ⟨i, hi⟩ := h.locks p hp hlock
      exact ⟨i, hi.move hp hmove⟩
  signed p hp hgone := by
    rw [hsets.other (item_ne_lockOf _ hplace)] at hgone
    obtain ⟨holder, o, hdone⟩ := h.signed p hp hgone
    exact ⟨holder, o, by rwa [hsets.other (lockOf_ne_done hplace _ _).symm]⟩
  owned p hp holder c hdone := by
    rw [hsets.other (lockOf_ne_done hplace _ _).symm] at hdone
    obtain ⟨i, hi, hholder, hc⟩ := h.owned p hp holder c hdone
    rw [hsets.clock]
    exact ⟨i, hi.move hp hmove, hholder, hc⟩
  inOrder hordered p hp q hq hkey hseq holder holder' o o' := by
    rw [hsets.other (lockOf_ne_done hplace _ _).symm, hsets.other (lockOf_ne_done hplace _ _).symm]
    exact h.inOrder hordered p hp q hq hkey hseq holder holder' o o'

/-- A done record created or written by the one who took the item's lock. -/
theorem Kept.record (h : Kept L ordered reader s) {place : Nat × Nat} (hplace : place ∈ places)
    (hmove : Move L ordered reader judge j x s s') (howns : Owns L ordered j place s)
    (hhere : (s.file L (item place)).isSome) {c : Text}
    (hsets : Sets L s (done place (reader j).holder) (some c) s')
    (hc : c = [] ∨ ∃ o < s.clock (reader j).clock, c = doneContent o false)
    (hlast : ∀ o, c = doneContent o false → ordered = true → ∀ q ∈ places, q.1 = place.1 → ∀ h o',
      s.file L (done q h) = some (doneContent o' false) → q.2 < place.2 ∧ o' < o) :
    Kept L ordered reader s' where
  dir := hsets.dir
  items n hn hitem := by
    have hne : n ≠ done place (reader j).holder := fun heq =>
      not_isItem_doneName (dot_not_mem_itemName _ _) _ (heq ▸ hitem)
    rw [hsets.other hne] at hn
    exact h.items n hn hitem
  records n it holder hn hsplit := by
    by_cases heq : n = done place (reader j).holder
    · rw [heq, splitOnce_doneName (dot_not_mem_itemName _ _)] at hsplit
      cases hsplit
      exact ⟨place, hplace, rfl⟩
    · rw [hsets.other heq] at hn
      exact h.records n it holder hn hsplit
  locks p hp hlock := by
    rw [hsets.other (lockOf_ne_done hp _ _)] at hlock
    obtain ⟨i, hi⟩ := h.locks p hp hlock
    exact ⟨i, hi.move hp hmove⟩
  signed p hp hgone := by
    rw [hsets.other (item_ne_done _ _ _)] at hgone
    -- The item of the record is still here, so the record is another item's.
    have hne : ∀ holder, done p holder ≠ done place (reader j).holder := by
      intro holder heq
      obtain ⟨rfl, -⟩ := done_inj hp hplace heq
      rw [hgone] at hhere
      cases hhere
    obtain ⟨holder, o, hdone⟩ := h.signed p hp hgone
    exact ⟨holder, o, by rwa [hsets.other (hne holder)]⟩
  owned p hp holder c' hdone := by
    rw [hsets.clock]
    by_cases heq : done p holder = done place (reader j).holder
    · obtain ⟨rfl, rfl⟩ := done_inj hp hplace heq
      rw [hsets.self] at hdone
      cases hdone
      exact ⟨j, howns.move hp hmove, rfl, hc⟩
    · rw [hsets.other heq] at hdone
      obtain ⟨i, hi, hholder, hc'⟩ := h.owned p hp holder c' hdone
      exact ⟨i, hi.move hp hmove, hholder, hc'⟩
  inOrder hordered p hp q hq hkey hseq holder holder' o o' hdone hdone' := by
    by_cases heq : done p holder = done place (reader j).holder
    · obtain ⟨rfl, rfl⟩ := done_inj hp hplace heq
      rw [hsets.self] at hdone
      have hne : done q holder' ≠ done p (reader j).holder := by
        intro hsame
        obtain ⟨rfl, -⟩ := done_inj hq hp hsame
        exact absurd hseq (lt_irrefl _)
      rw [hsets.other hne] at hdone'
      -- No later item of the key is signed before this one.
      have := hlast o (Option.some.inj hdone) hordered q hq hkey.symm holder' o' hdone'
      omega
    · rw [hsets.other heq] at hdone
      by_cases heq' : done q holder' = done place (reader j).holder
      · obtain ⟨rfl, rfl⟩ := done_inj hq hplace heq'
        rw [hsets.self] at hdone'
        exact (hlast o' (Option.some.inj hdone') hordered p hp hkey holder o hdone).2
      · rw [hsets.other heq'] at hdone'
        exact h.inOrder hordered p hp q hq hkey hseq holder holder' o o' hdone hdone'

/-- An item removed, its record written. -/
theorem Kept.remove (h : Kept L ordered reader s) {place : Nat × Nat} (hplace : place ∈ places)
    (hmove : Move L ordered reader judge j x s s') {holder : Text} {o : Nat}
    (hwritten : s.file L (done place holder) = some (doneContent o false))
    (hsets : Sets L s (item place) none s') : Kept L ordered reader s' where
  dir := hsets.dir
  items n hn hitem := by
    -- the item removed is not there after
    have hne : n ≠ item place := by
      intro heq
      rw [heq, hsets.self] at hn
      cases hn
    rw [hsets.other hne] at hn
    exact h.items n hn hitem
  records n it holder hn hsplit := by
    have hne : n ≠ item place := by
      intro heq
      rw [heq, hsets.self] at hn
      cases hn
    rw [hsets.other hne] at hn
    exact h.records n it holder hn hsplit
  locks p hp hlock := by
    rw [hsets.other (item_ne_lockOf _ hp).symm] at hlock
    obtain ⟨i, hi⟩ := h.locks p hp hlock
    exact ⟨i, hi.move hp hmove⟩
  signed p hp hgone := by
    -- the item removed has its record written; every other item gone had one
    by_cases heq : item p = item place
    · obtain rfl := itemName_inj hp hplace heq
      exact ⟨holder, o, by rwa [hsets.other (item_ne_done _ _ _).symm]⟩
    · rw [hsets.other heq] at hgone
      obtain ⟨holder', o', hdone⟩ := h.signed p hp hgone
      exact ⟨holder', o', by rwa [hsets.other (item_ne_done _ _ _).symm]⟩
  owned p hp holder c hdone := by
    rw [hsets.other (item_ne_done _ _ _).symm] at hdone
    obtain ⟨i, hi, hholder, hc⟩ := h.owned p hp holder c hdone
    rw [hsets.clock]
    exact ⟨i, hi.move hp hmove, hholder, hc⟩
  inOrder hordered p hp q hq hkey hseq holder holder' o o' := by
    rw [hsets.other (item_ne_done _ _ _).symm, hsets.other (item_ne_done _ _ _).symm]
    exact h.inOrder hordered p hp q hq hkey hseq holder holder' o o'

/-- A lock taken stays. -/
theorem Kept.locked_move (h : Kept L ordered reader s) (hp : p ∈ places)
    (hmove : Move L ordered reader judge j x s s') (hlock : (s.file L (lockOf ordered p)).isSome) :
    (s'.file L (lockOf ordered p)).isSome := by
  obtain ⟨i, hi⟩ := h.locks p hp hlock
  exact (hi.move hp hmove).1

/-- Where no lock was taken, the item is here and unsigned. -/
theorem Kept.unlocked (h : Kept L ordered reader s) (hp : p ∈ places)
    (hfree : s.file L (lockOf ordered p) = none) :
    (s.file L (item p)).isSome ∧ Unsigned L p s := by
  have hunsigned : Unsigned L p s := by
    intro holder
    by_contra hsome
    obtain ⟨c, hc⟩ := Option.ne_none_iff_exists'.mp hsome
    obtain ⟨i, hi, -⟩ := h.owned p hp holder c hc
    have hlock := hi.1
    rw [hfree] at hlock
    cases hlock
  refine ⟨?_, hunsigned⟩
  by_contra hgone
  obtain ⟨holder, o, hdone⟩ := h.signed p hp (Option.not_isSome_iff_eq_none.mp hgone)
  rw [hunsigned] at hdone
  cases hdone

/-- **Every move keeps the lane.** -/
theorem Kept.move (h : Kept L ordered reader s) (hmove : Move L ordered reader judge j x s s') :
    Kept L ordered reader s' := by
  have hmoved := hmove
  cases hmove with
  | still still watch => exact h.still still
  | judged who still => exact h.still still
  | lock place free sets owns watch => exact h.lock place hmoved sets owns
  | sign place owns here unsigned sets lockedBy watch =>
    apply h.record place hmoved owns here sets (.inl rfl)
    intro o ho
    exact absurd ho.symm (doneContent_ne_nil _ _)
  | write place owns here empty fresh last sets lockedBy watch =>
    refine h.record place hmoved owns here sets (.inr ⟨_, fresh, rfl⟩) fun o ho => ?_
    rw [← doneContent_inj ho]
    exact last
  | remove place owns written sets lockedBy watch => exact h.remove place hmoved written sets

end XmipEssentials.ExclusiveClaim
