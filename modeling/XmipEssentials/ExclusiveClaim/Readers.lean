import XmipEssentials.ExclusiveClaim.Lane

/-!
# Honest readers over one lane

The proof outline of an honest reader, from one item to its whole run: each of its steps is a `Move`
of the lane, and it ends with nothing left of what it took (`Idle`), every lock of its own lane
taken where it scans no other.
-/

namespace XmipEssentials.ExclusiveClaim

open Text Conc Files

variable {ι : Type} {L : Lane} {ordered : Bool} {reader : ι → Reader} {judge i : ι}
  {s s' : State ι} {p : Nat × Nat} {name : Text}

/-! ### What a call on the lane comes to -/

theorem exec_file {β : Type} {op : FileOp Lane Char β} {note : Note} {b : Except Text β}
    (h : exec i (.file op note) s b s') :
    ∃ store, op.May False s.store b store ∧ s' = State.noted { s with store } i op note b := by
  obtain ⟨store, hdoes, heq⟩ := h
  exact ⟨store, .inl hdoes, heq⟩

/-- Reading changes nothing, and answers the content of a file that is there. -/
theorem exec_read {b : Except Text (List Char)} (h : exec i (.file (.read L name) .plain) s b s') :
    s' = s ∧ ∀ c, b = .ok c ↔ s.file L name = some c := by
  obtain ⟨store, hmay, rfl⟩ := exec_file h
  obtain ⟨rfl, hread, hok⟩ := hmay.read
  exact ⟨rfl, fun c => ⟨hread c, hok not_false c⟩⟩

/-- A listing changes nothing, and names every file once. -/
theorem exec_list {b : Except Text (List Text)} (h : exec i (.file (.list L) .plain) s b s')
    (hdir : (s.store L).isSome) :
    s' = s ∧ ∃ names, b = .ok names ∧ names.Nodup ∧ ∀ n, n ∈ names ↔ (s.file L n).isSome := by
  obtain ⟨store, hmay, rfl⟩ := exec_file h
  obtain ⟨rfl, hlist, hok⟩ := hmay.list
  obtain ⟨names, rfl⟩ := hok not_false hdir
  exact ⟨rfl, names, rfl, hlist names rfl⟩

/-- A file created where there was none, or one that is there. -/
theorem exec_createNew {note : Note} {b : Except Text Unit}
    (h : exec i (.file (.createNew L name) note) s b s') (hdir : (s.store L).isSome) :
    ((∃ why, b = .error why) ∧ s' = State.noted s i (.createNew L name) note b ∧
        (s.file L name).isSome) ∨
      (b = .ok () ∧ s.file L name = none ∧ ∃ t, Sets L s name (some []) t ∧
        t.lockedBy = s.lockedBy ∧ t.watch = s.watch ∧
        s' = State.noted t i (.createNew L name) note b) := by
  obtain ⟨store, hmay, rfl⟩ := exec_file h
  rcases hmay.createNew with ⟨hb, rfl, hwhy⟩ | ⟨rfl, hnone, hputs⟩
  · refine .inl ⟨hb, rfl, (hwhy not_false).resolve_left fun hno => ?_⟩
    rw [hno] at hdir
    cases hdir
  · refine .inr ⟨rfl, hnone, { s with store }, ⟨hmay.keeps_dir hdir, fun n => ?_, rfl⟩, rfl, rfl,
      rfl⟩
    have hfile := hputs L n
    simpa [State.file] using hfile

/-- A write to a file that is there. -/
theorem exec_write {note : Note} {content : Text} {b : Except Text Unit}
    (h : exec i (.file (.write L name content) note) s b s') (hdir : (s.store L).isSome)
    (hthere : (s.file L name).isSome) :
    b = .ok () ∧ ∃ t, Sets L s name (some content) t ∧ t.lockedBy = s.lockedBy ∧
      t.watch = s.watch ∧ s' = State.noted t i (.write L name content) note b := by
  obtain ⟨store, hmay, rfl⟩ := exec_file h
  rcases hmay.write hthere with ⟨-, hno, -⟩ | ⟨rfl, hputs⟩
  · exact hno.elim
  · -- What is told of a write is of the watch, not of the files.
    refine ⟨rfl, { s with store }, ⟨hmay.keeps_dir hdir, fun n => ?_, rfl⟩, rfl, rfl, rfl⟩
    have hfile := hputs L n
    simpa [State.file] using hfile

/-- A file that is there removed. -/
theorem exec_remove {b : Except Text Unit} (h : exec i (.file (.remove L name) .plain) s b s')
    (hdir : (s.store L).isSome) (hthere : (s.file L name).isSome) :
    Sets L s name none s' ∧ s'.lockedBy = s.lockedBy ∧ s'.watch = s.watch := by
  obtain ⟨store, hmay, rfl⟩ := exec_file h
  rcases hmay.remove with ⟨-, -, hnone⟩ | ⟨rfl, -, hputs⟩
  · have hgone : s.file L name = none := hnone not_false
    rw [hgone] at hthere
    cases hthere
  · refine ⟨⟨hmay.keeps_dir hdir, fun n => ?_, rfl⟩, rfl, rfl⟩
    have hfile := hputs L n
    simpa [State.file, State.noted] using hfile

/-- A call on no file of the lane. -/
def Elsewhere (L : Lane) ⦃β : Type⦄ : PickupOp β → Prop
  | .file op _ => L ≠ op.dir
  | .removeDir d => L ≠ d
  | .renameDir old new => L ≠ old ∧ L ≠ new
  | .lanes | .tick _ | .patience => True

private theorem watch_watched_of_ne {d : Lane} (h : L ≠ d) (w : Watch) :
    (s.watched d w).watch L = s.watch L :=
  Function.update_of_ne h ..

/-- What is told of a call elsewhere is nothing of the lane. -/
theorem noted_elsewhere {β : Type} {op : FileOp Lane Char β} (h : L ≠ op.dir) (note : Note)
    (b : Except Text β) : (State.noted s i op note b).store = s.store ∧
      (State.noted s i op note b).clock = s.clock ∧
      (State.noted s i op note b).lockedBy L = s.lockedBy L ∧
      (State.noted s i op note b).watch L = s.watch L := by
  -- Most calls tell nothing; those that do tell it of their own lane.
  cases op <;> cases note
  case createNew.lock =>
    cases b with
    | error why => exact ⟨rfl, rfl, rfl, rfl⟩
    | ok made => exact ⟨rfl, rfl, Function.update_of_ne h .., rfl⟩
  case createNew.sign =>
    cases b with
    | error why => exact ⟨rfl, rfl, rfl, rfl⟩
    | ok made => exact ⟨rfl, rfl, rfl, watch_watched_of_ne h _⟩
  case write.wrote =>
    rw [State.noted_write]
    split
    · exact ⟨rfl, rfl, rfl, watch_watched_of_ne h _⟩
    · exact ⟨rfl, rfl, rfl, rfl⟩
  case list.look => exact ⟨rfl, rfl, rfl, watch_watched_of_ne h _⟩
  case read.see => exact ⟨rfl, rfl, rfl, watch_watched_of_ne h _⟩
  case list.find => exact ⟨rfl, rfl, rfl, watch_watched_of_ne h _⟩
  all_goals exact ⟨rfl, rfl, rfl, rfl⟩

/-- The lane is as it was. -/
structure Untouched (L : Lane) (s s' : State ι) : Prop where
  store : s'.store L = s.store L
  lockedBy : s'.lockedBy L = s.lockedBy L
  watch : s'.watch L = s.watch L
  clock : ∀ c, s.clock c ≤ s'.clock c

private theorem Untouched.refl (s : State ι) : Untouched L s s :=
  ⟨rfl, rfl, rfl, fun _ => le_refl _⟩

theorem Untouched.trans {s'' : State ι} (h : Untouched L s s') (h' : Untouched L s' s'') :
    Untouched L s s'' where
  store := h'.store.trans h.store
  lockedBy := h'.lockedBy.trans h.lockedBy
  watch := h'.watch.trans h.watch
  clock c := (h.clock c).trans (h'.clock c)

theorem Untouched.still (h : Untouched L s s') : Still L s s' where
  dir hdir := by rwa [h.store]
  files n := by
    unfold State.file Store.file
    rw [h.store]
  lockedBy := h.lockedBy
  clock := h.clock

/-- **A call elsewhere leaves the lane as it was.** -/
theorem exec_elsewhere {β : Type} {op : PickupOp β} {b : β} (hop : Elsewhere L op)
    (h : exec i op s b s') : Untouched L s s' := by
  cases op with
  | file op note =>
    obtain ⟨store, hmay, rfl⟩ := exec_file h
    obtain ⟨hstore, hclock, hlocks, hwatch⟩ := noted_elsewhere (s := { s with store }) hop note b
    refine ⟨?_, hlocks, hwatch, fun c => le_of_eq (congrFun hclock c).symm⟩
    rw [hstore]
    exact hmay.other hop
  | removeDir d =>
    simp only [exec] at h
    split at h
    · obtain ⟨-, rfl⟩ := h
      -- The directory removed is another.
      exact ⟨Store.drop_of_ne hop, rfl, rfl, fun _ => le_refl _⟩
    · obtain ⟨-, rfl⟩ := h
      exact .refl _
  | renameDir old new =>
    simp only [exec] at h
    split at h
    · split at h
      · obtain ⟨-, rfl⟩ := h
        -- So are both directories of a rename.
        exact ⟨(Store.set_of_ne hop.2).trans (Store.drop_of_ne hop.1), rfl, rfl, fun _ => le_refl _⟩
      · obtain ⟨-, rfl⟩ := h
        exact .refl _
    · obtain ⟨-, rfl⟩ := h
      exact .refl _
  | lanes =>
    obtain ⟨rfl, -⟩ := h
    exact .refl _
  | tick clock =>
    obtain ⟨-, rfl⟩ := h
    refine ⟨rfl, rfl, rfl, fun c => ?_⟩
    -- One clock goes on by one, and none goes back.
    by_cases hc : c = clock
    · subst hc
      simp
    · simp [Function.update_of_ne hc]
  | patience =>
    obtain rfl := h
    exact .refl _

/-- A program elsewhere leaves the lane as it was. -/
theorem runs_elsewhere {α : Type} {prog : Prog PickupOp α} {a : α}
    (hprog : prog.Only (Elsewhere L)) (h : prog.Runs exec i s a s') : Untouched L s s' := by
  induction h with
  | pure => exact .refl _
  | call did rest ih => exact (exec_elsewhere hprog.1 did).trans (ih (hprog.2 _))

/-! ### One item -/

section

variable (L : Lane) (ordered : Bool) (reader : ι → Reader) (judge i : ι)

/-- The proof outline of honest readers: each makes moves of the lane. -/
def outline : Outline ι PickupOp (State ι) :=
  .ofMoves exec (Kept L ordered reader) fun i s s' => ∃ x, Move L ordered reader judge i x s s'

/-- What the others' moves keep. -/
def Stable (P : State ι → Prop) : Prop :=
  ∀ j x t t', j ≠ i → Kept L ordered reader t → Kept L ordered reader t' →
    Move L ordered reader judge j x t t' → P t → P t'

/-- What the others' moves keep, and one's own as one processes the item at `p`. -/
def Aside (p : Nat × Nat) (P : State ι → Prop) : Prop :=
  ∀ j x t t', (j ≠ i ∨ x = some p) → Kept L ordered reader t → Kept L ordered reader t' →
    Move L ordered reader judge j x t t' → P t → P t'

/-- What the others' moves keep, and one's own but for taking a lock. -/
def Calm (P : State ι → Prop) : Prop :=
  ∀ j x t t', (j ≠ i ∨ x ≠ none) → Kept L ordered reader t → Kept L ordered reader t' →
    Move L ordered reader judge j x t t' → P t → P t'

/-- Thread `i` took the lock of `p`, whose item is here, and signed neither it nor, in an ordered
style, a later one of its key. -/
structure Mine (p : Nat × Nat) (s : State ι) : Prop where
  owns : Owns L ordered i p s
  here : (s.file L (item p)).isSome
  unsigned : Unsigned L p s
  later : ordered = true → ∀ q ∈ places, q.1 = p.1 → p.2 < q.2 → Unsigned L q s

/-- Of the key of `p`, in an ordered style, no item but earlier ones was written, all with an order
below `o`. -/
def Below (p : Nat × Nat) (o : Nat) (s : State ι) : Prop :=
  ordered = true → ∀ q ∈ places, q.1 = p.1 → ∀ h o',
    s.file L (done q h) = some (doneContent o' false) → q.2 < p.2 ∧ o' < o

end

variable {P R : State ι → Prop} {β : Type} {post : Unit → State ι → Prop}

theorem Stable.rely (h : Stable L ordered reader judge i P)
    (hrely : (outline L ordered reader judge).rely i s s') (hP : P s) : P s' := by
  refine Outline.ofMoves_stable ?_ hrely hP
  rintro j t t' hne hkept hkept' ⟨x, hmove⟩ ht
  exact h j x t t' hne hkept hkept' hmove ht

private theorem Aside.stable (h : Aside L ordered reader judge i p P) :
    Stable L ordered reader judge i P :=
  fun j x t t' hne => h j x t t' (.inl hne)

theorem Stable.and (hP : Stable L ordered reader judge i P)
    (hR : Stable L ordered reader judge i R) :
    Stable L ordered reader judge i fun s => P s ∧ R s :=
  fun j x t t' hne hk hk' hmove h =>
    ⟨hP j x t t' hne hk hk' hmove h.1, hR j x t t' hne hk hk' hmove h.2⟩

/-- One call: from whatever the others led to, a move, and what follows is safe. -/
theorem safe_call {α : Type} {op : PickupOp β} {next : β → Prog PickupOp α}
    {post : α → State ι → Prop} (hstable : Stable L ordered reader judge i P) (hP : P s)
    (h : ∀ t, Kept L ordered reader t → P t → ∀ b t', exec i op t b t' →
      ∃ x, Move L ordered reader judge i x t t' ∧
        (Kept L ordered reader t' → (outline L ordered reader judge).Safe i post (next b) t')) :
    (outline L ordered reader judge).Safe i post (.call op next) s := by
  intro t hrely hkept b t' did
  obtain ⟨x, hmove, hnext⟩ := h t hkept (hstable.rely hrely hP) b t' did
  exact ⟨hkept.move hmove, ⟨x, hmove⟩, hnext (hkept.move hmove)⟩

theorem safe_end {α : Type} {a : α} (hstable : Stable L ordered reader judge i P) (hP : P s) :
    (outline L ordered reader judge).Safe i (fun _ => P) (Prog.pure a) s :=
  fun _ hrely _ => hstable.rely hrely hP

/-- An item whose lock one took is here until one removes it. -/
theorem stable_here (hp : p ∈ places) : Stable L ordered reader judge i fun s =>
    Owns L ordered i p s ∧ (s.file L (item p)).isSome :=
  fun _ _ _ _ hne _ _ hmove h =>
    ⟨h.1.move hp hmove, here_move hp h.1 h.2 hmove (.inl hne)⟩

/-- One's done record is as one left it. -/
theorem stable_done (hp : p ∈ places) (h : Text) (c : Option Text) :
    Stable L ordered reader judge i fun s => Owns L ordered i p s ∧ s.file L (done p h) = c := by
  intro j x t t' hne _ _ hmove ht
  refine ⟨ht.1.move hp hmove, ?_⟩
  rw [done_move hp ht.1 h hmove (.inl hne)]
  exact ht.2

/-- In an ordered style a key has one lock. -/
theorem owns_of_key (hordered : ordered = true) {q : Nat × Nat} (hkey : q.1 = p.1)
    (h : Owns L ordered i p s) : Owns L ordered i q s := by
  apply h.same
  unfold lockOf
  rw [if_pos hordered, if_pos hordered, hkey]

/-- What one is to process stays as it is while one processes an earlier item of the key. -/
theorem Mine.move {j : ι} {x : Option (Nat × Nat)} (hp : p ∈ places) (h : Mine L ordered i p s)
    (hmove : Move L ordered reader judge j x s s')
    (hother : j ≠ i ∨ ∀ q : Nat × Nat, q.1 = p.1 → p.2 ≤ q.2 → x ≠ some q) :
    Mine L ordered i p s' := by
  -- A move of another, or one's own of an earlier item, is no move of the item itself.
  have hself := hother.imp_right fun hx => hx p rfl (le_refl _)
  refine ⟨h.owns.move hp hmove, here_move hp h.owns h.here hmove hself, fun holder => ?_, ?_⟩
  · rw [done_move hp h.owns holder hmove hself]
    exact h.unsigned holder
  · intro hordered q hq hkey hseq holder
    rw [done_move hq (owns_of_key hordered hkey h.owns) holder hmove
      (hother.imp_right fun hx => hx q hkey hseq.le)]
    exact h.later hordered q hq hkey hseq holder

private theorem stable_mine (hp : p ∈ places) :
    Stable L ordered reader judge i (Mine L ordered i p) :=
  fun _ _ _ _ hne _ _ hmove h => h.move hp hmove (.inl hne)

private theorem stable_below (o : Nat) : Stable L ordered reader judge i fun s =>
    Owns L ordered i p s ∧ Below L ordered p o s ∧ p ∈ places := by
  intro j x t t' hne _ _ hmove ⟨howns, h, hp⟩
  refine ⟨howns.move hp hmove, fun hordered q hq hkey holder o' hdone => ?_, hp⟩
  rw [done_move hq (owns_of_key hordered hkey howns) holder hmove (.inl hne)] at hdone
  exact h hordered q hq hkey holder o' hdone

private theorem stable_clock (c : Text) (o : Nat) :
    Stable L ordered reader judge i fun s => o < s.clock c :=
  fun _ _ _ _ _ _ _ hmove h => h.trans_le (clock_move hmove c)

/-- The item removed by the one who took its lock, its record written. -/
theorem safe_remove (hp : p ∈ places) (hR : Aside L ordered reader judge i p R) {o : Nat} (h : R s)
    (hhere : Owns L ordered i p s ∧ (s.file L (item p)).isSome)
    (hdone : Owns L ordered i p s ∧
      s.file L (done p (reader i).holder) = some (doneContent o false)) :
    (outline L ordered reader judge).Safe i (fun _ t => R t ∧ t.file L (item p) = none)
      (.call (.file (.remove L (item p)) .plain) fun _ => .pure ()) s := by
  refine safe_call (hR.stable.and ((stable_here hp).and (stable_done hp _ _))) ⟨h, hhere, hdone⟩ ?_
  rintro t hkept ⟨ht, ⟨howns, hthere⟩, -, hwritten⟩ b t' did
  obtain ⟨hsets, hlocks, hwatch⟩ := exec_remove did hkept.dir hthere
  have hmove : Move L ordered reader judge i (some p) t t' :=
    .remove hp howns hwritten hsets (congrFun hlocks L) (congrFun hwatch L)
  refine ⟨some p, hmove, fun hkept' => safe_end (hR.stable.and ?_) ⟨?_, hsets.self⟩⟩
  · -- Once removed it stays so, whoever moves.
    intro _ _ _ _ _ _ _ hmove hgone
    exact gone_move hgone hmove
  · exact hR i (some p) t t' (.inr rfl) hkept hkept' hmove ht

/-- The done record created and written by the one who took the item's lock. -/
theorem safe_sign (hp : p ∈ places) (hR : Aside L ordered reader judge i p R) {o : Nat} (h : R s)
    (hmine : Mine L ordered i p s) (hfresh : o < s.clock (reader i).clock)
    (hbelow : Below L ordered p o s) :
    (outline L ordered reader judge).Safe i
      (fun _ t => R t ∧ (Owns L ordered i p t ∧ (t.file L (item p)).isSome) ∧
        Owns L ordered i p t ∧ t.file L (done p (reader i).holder) = some (doneContent o false))
      ((reader i).sign L (item p) o false) s := by
  -- First the record is created, empty.
  refine safe_call (hR.stable.and ((stable_mine hp).and ((stable_clock _ o).and (stable_below o))))
    ⟨h, hmine, hfresh, hmine.owns, hbelow, hp⟩ ?_
  rintro t hkept ⟨ht, hmine, hfresh, -, hbelow, -⟩ b t' did
  rcases exec_createNew did hkept.dir with ⟨-, -, hsome⟩ | ⟨rfl, -, u, hsets, hlocks, hwatch, rfl⟩
  · -- Nobody else signs the item.
    rw [hmine.unsigned] at hsome
    cases hsome
  set t' := State.noted u i (.createNew L (done p (reader i).holder)) .sign (.ok ()) with ht'
  have hsets' : Sets L t (done p (reader i).holder) (some []) t' :=
    ⟨hsets.dir, hsets.files, hsets.clock⟩
  have hwatch' : t'.watch L = { t.watch L with late := true } := by
    rw [ht', ← congrFun hwatch L]
    exact Function.update_self ..
  have hmove : Move L ordered reader judge i (some p) t t' :=
    .sign hp hmine.owns hmine.here hmine.unsigned hsets' (congrFun hlocks L) hwatch'
  refine ⟨some p, hmove, fun hkept' => ?_⟩
  have hR' := hR i (some p) t t' (.inr rfl) hkept hkept' hmove ht
  have howns := hmine.owns.move hp hmove
  have hthere : (t'.file L (item p)).isSome := by
    rw [hsets'.other (item_ne_done _ _ _)]
    exact hmine.here
  have hbelow' : Below L ordered p o t' := by
    intro hordered q hq hkey holder o' hdone
    by_cases heq : done q holder = done p (reader i).holder
    · -- What was just created is still empty.
      rw [heq, hsets'.self] at hdone
      exact absurd (Option.some.inj hdone).symm (doneContent_ne_nil _ _)
    · rw [hsets'.other heq] at hdone
      exact hbelow hordered q hq hkey holder o' hdone
  have hfresh' : o < t'.clock (reader i).clock := hfresh.trans_le (clock_move hmove _)
  -- Then it is written: what was known of it is known still, as nobody else touches the records of
  -- the item.
  refine safe_call (hR.stable.and ((stable_here hp).and ((stable_done hp _ _).and
    ((stable_clock _ o).and (stable_below o)))))
    ⟨hR', ⟨howns, hthere⟩, ⟨howns, hsets'.self⟩, hfresh', howns, hbelow', hp⟩ ?_
  rintro v hkept ⟨hv, ⟨howns, hthere⟩, ⟨-, hempty⟩, hfresh, -, hbelow, -⟩ b v' did
  have hexists : (v.file L (done p (reader i).holder)).isSome := by rw [hempty]; rfl
  obtain ⟨rfl, w, hsets, hlocks, hwatch, rfl⟩ := exec_write did hkept.dir hexists
  rw [State.noted_write] at did ⊢
  set v' := (if done p (reader i).holder ∈ (w.watch L).seen ∧ o ≠ 0 then
    w.watched L { w.watch L with late := true } else w) with hv'
  -- The judge may have looked already and seen it empty; then the order comes late, and that is
  -- told.
  have hnoted : v'.store = w.store ∧ v'.clock = w.clock ∧ v'.lockedBy = w.lockedBy ∧
      v'.watch L = if done p (reader i).holder ∈ (w.watch L).seen ∧ o ≠ 0 then
        { w.watch L with late := true } else w.watch L := by
    rw [hv']
    split
    · exact ⟨rfl, rfl, rfl, Function.update_self ..⟩
    · exact ⟨rfl, rfl, rfl, rfl⟩
  obtain ⟨hstore, hclock, hlocked, hwatched⟩ := hnoted
  have hsets' : Sets L v (done p (reader i).holder) (some (doneContent o false)) v' := by
    refine ⟨by rw [hstore]; exact hsets.dir, fun n => ?_, by rw [hclock]; exact hsets.clock⟩
    unfold State.file
    rw [hstore]
    exact hsets.files n
  have hmove : Move L ordered reader judge i (some p) v v' := by
    refine .write hp howns hthere hempty hfresh hbelow hsets' ?_ ?_
    · rw [hlocked, hlocks]
    · rw [hwatched, congrFun hwatch L]
  refine ⟨some p, hmove, fun hkept' => safe_end
    (hR.stable.and ((stable_here hp).and (stable_done hp _ _))) ⟨?_, ⟨?_, ?_⟩, ?_, hsets'.self⟩⟩
  · exact hR i (some p) v v' (.inr rfl) hkept hkept' hmove hv
  · exact howns.move hp hmove
  · rw [hsets'.other (item_ne_done _ _ _)]
    exact hthere
  · exact howns.move hp hmove

/-- **One item processed** by the one who took its lock is gone, whatever else was kept. -/
theorem safe_process (hp : p ∈ places) (hR : Aside L ordered reader judge i p R) (h : R s)
    (hmine : Mine L ordered i p s) :
    (outline L ordered reader judge).Safe i (fun _ t => R t ∧ t.file L (item p) = none)
      ((reader i).process L (item p) false) s := by
  -- The item is read: it is there, as nobody else removes it.
  refine safe_call (hR.stable.and (stable_mine hp)) ⟨h, hmine⟩ ?_
  rintro t - ⟨ht, hmine⟩ b t' did
  obtain ⟨rfl, hread⟩ := exec_read did
  obtain ⟨c, hc⟩ := Option.isSome_iff_exists.mp hmine.here
  obtain rfl := (hread c).mpr hc
  refine ⟨some p, .still (Still.refl t') rfl, fun _ => ?_⟩
  -- An order is drawn of the reader's clock, which touches no file.
  refine safe_call (hR.stable.and (stable_mine hp)) ⟨ht, hmine⟩ ?_
  rintro u hkept ⟨hu, hmine⟩ o u' did
  have helse : Elsewhere L (.tick (reader i).clock) := trivial
  have huntouched := exec_elsewhere helse did
  have hstill := huntouched.still
  have hmove : Move L ordered reader judge i (some p) u u' := .still hstill huntouched.watch
  refine ⟨some p, hmove, fun hkept' => ?_⟩
  have hR' := hR i (some p) u u' (.inr rfl) hkept hkept' hmove hu
  have hmine' : Mine L ordered i p u' := by
    refine ⟨hmine.owns.of_still hstill, ?_, fun holder => ?_,
      fun hordered q hq hkey hseq holder => ?_⟩
    · rw [hstill.files]
      exact hmine.here
    · rw [hstill.files]
      exact hmine.unsigned holder
    · rw [hstill.files]
      exact hmine.later hordered q hq hkey hseq holder
  obtain ⟨rfl, hclock⟩ := did
  have hfresh : u.clock (reader i).clock < u'.clock (reader i).clock := by
    rw [hclock]
    simp
  have hbelow : Below L ordered p (u.clock (reader i).clock) u' := by
    intro hordered q hq hkey holder o' hdone
    rw [hstill.files] at hdone
    have hother : q ≠ p := by
      rintro rfl
      rw [hmine.unsigned] at hdone
      cases hdone
    -- A later item of the key is not signed yet, and this one is not either, so it is an earlier
    -- one.
    have hseq : q.2 < p.2 := by
      by_contra hnot
      rcases lt_or_eq_of_le (not_lt.mp hnot) with hlater | hsame
      · rw [hmine.later hordered q hq hkey hlater] at hdone
        cases hdone
      · exact hother (Prod.ext hkey hsame.symm)
    -- Its holder is this reader, whose clock went on since.
    obtain ⟨j, hj, -, hwritten⟩ := hkept.owned q hq holder _ hdone
    obtain rfl := hj.unique (owns_of_key hordered hkey hmine.owns)
    rcases hwritten with hnil | ⟨o'', ho'', hcontent⟩
    · exact absurd hnil (doneContent_ne_nil _ _)
    · rw [doneContent_inj hcontent]
      exact ⟨hseq, ho''⟩
  -- What follows signs the item by that order and removes it.
  change (outline L ordered reader judge).Safe i _
    ((reader i).sign L (item p) (u.clock (reader i).clock) false >>= fun _ =>
      .call (.file (.remove L (item p)) .plain) fun _ => .pure ()) u'
  apply Outline.Safe.bind (safe_sign hp hR hR' hmine' hfresh hbelow) hkept'
  rintro - v - ⟨hv, hhere, hdone⟩
  exact safe_remove hp hR hv hhere hdone

/-! ### Elsewhere -/

section

variable {d : Lane} {r : Reader}

theorem only_list (hd : L ≠ d) (note : Note) : (list d note).Only (Elsewhere L) := by
  refine ⟨hd, fun b => ?_⟩
  cases b <;> trivial

private theorem only_claimed (hd : L ≠ d) (lock : Text) : (claimed d lock).Only (Elsewhere L) :=
  ⟨hd, fun _ => trivial⟩

private theorem only_sign (hd : L ≠ d) (it : Text) (o : Nat) (injected : Bool) :
    (r.sign d it o injected).Only (Elsewhere L) := by
  refine ⟨hd, fun b => ?_⟩
  cases b with
  | error why => trivial
  | ok made => exact ⟨hd, fun _ => trivial⟩

private theorem only_process (hd : L ≠ d) (it : Text) (injected : Bool) :
    (r.process d it injected).Only (Elsewhere L) := by
  refine ⟨hd, fun b => ?_⟩
  cases b with
  | error why => trivial
  | ok read =>
    refine ⟨trivial, fun o => (only_sign hd it o injected).bind fun _ => ?_⟩
    cases injected with
    | true => trivial
    | false => exact ⟨hd, fun _ => trivial⟩

/-- A reader's pass over one lane is on that lane alone. -/
theorem only_pass (hd : L ≠ d) (ordered broken : Bool) :
    (r.pass ordered broken d).Only (Elsewhere L) := by
  unfold Reader.pass
  -- A pass without claims, one that claims by key, or one that claims by item.
  split
  · exact (only_list hd .plain).bind fun names =>
      Prog.Only.forM (fun it => only_process hd it true) names
  · split
    · refine Prog.Only.forM (fun key => (only_claimed hd _).bind fun won => ?_) _
      split
      · exact Prog.Only.forM (fun seq => only_process hd _ false) _
      · trivial
    · refine (only_list hd .plain).bind fun names => Prog.Only.forM (fun it => ?_) names
      apply (only_claimed hd _).bind
      intro won
      split
      · exact only_process hd it false
      · trivial

end

/-- **A program elsewhere** keeps whatever of the lane is kept but by taking a lock. -/
theorem safe_elsewhere {α : Type} {prog : Prog PickupOp α} (hprog : prog.Only (Elsewhere L))
    (hP : Calm L ordered reader judge i P) (h : P s) :
    (outline L ordered reader judge).Safe i (fun _ => P) prog s := by
  have hstable : Stable L ordered reader judge i P := fun j x t t' hne => hP j x t t' (.inl hne)
  -- Each call of it is no move of the lane's, so what is kept is kept.
  induction prog generalizing s with
  | pure a => exact safe_end hstable h
  | call op next ih =>
    apply safe_call hstable h
    intro t hkept ht b t' did
    have huntouched := exec_elsewhere hprog.1 did
    have hmove : Move L ordered reader judge i (some (0, 0)) t t' :=
      .still huntouched.still huntouched.watch
    refine ⟨some (0, 0), hmove, fun hkept' => ih b (hprog.2 b) ?_⟩
    exact hP i _ t t' (.inr (Option.some_ne_none _)) hkept hkept' hmove ht

/-! ### A reader's passes -/

variable (L ordered i) in
/-- Nothing is left of what thread `i` took. -/
def Idle (s : State ι) : Prop := ∀ p ∈ places, Owns L ordered i p s → s.file L (item p) = none

variable (L ordered) in
/-- Every lock of the lane is taken. -/
def AllLocked (s : State ι) : Prop := ∀ p ∈ places, (s.file L (lockOf ordered p)).isSome

theorem Calm.stable (h : Calm L ordered reader judge i P) : Stable L ordered reader judge i P :=
  fun j x t t' hne => h j x t t' (.inl hne)

private theorem Calm.aside (h : Calm L ordered reader judge i P) (p : Nat × Nat) :
    Aside L ordered reader judge i p P :=
  fun j x t t' hother => h j x t t' (hother.imp_right fun hx => by rw [hx]; nofun)

theorem Calm.and (hP : Calm L ordered reader judge i P) (hR : Calm L ordered reader judge i R) :
    Calm L ordered reader judge i fun s => P s ∧ R s :=
  fun j x t t' hother hk hk' hmove h =>
    ⟨hP j x t t' hother hk hk' hmove h.1, hR j x t t' hother hk hk' hmove h.2⟩

/-- What one took of the places of `S` stays gone. -/
theorem calm_gone (S : Nat × Nat → Prop) : Calm L ordered reader judge i fun s =>
    ∀ p ∈ places, S p → Owns L ordered i p s → s.file L (item p) = none :=
  fun _ _ _ _ hother _ _ hmove h p hp hS howns =>
    gone_move (h p hp hS (howns.back hp hmove hother)) hmove

theorem calm_idle : Calm L ordered reader judge i (Idle L ordered i) :=
  fun _ _ _ _ hother _ _ hmove h p hp howns =>
    gone_move (h p hp (howns.back hp hmove hother)) hmove

private theorem calm_allLocked : Calm L ordered reader judge i (AllLocked L ordered) :=
  fun _ _ _ _ _ hk _ hmove h p hp => hk.locked_move hp hmove (h p hp)

/-- The items listed are all those still here. -/
theorem safe_list (hP : Calm L ordered reader judge i P) (h : P s) :
    (outline L ordered reader judge).Safe i (fun names t => P t ∧
      (∀ n ∈ names, ∃ p ∈ places, n = item p) ∧
        ∀ p ∈ places, item p ∉ names → t.file L (item p) = none) (list L .plain) s := by
  apply safe_call hP.stable h
  intro t hkept ht b t' did
  obtain ⟨rfl, names, rfl, -, hnames⟩ := exec_list did hkept.dir
  refine ⟨none, .still (Still.refl t') rfl, fun _ => ?_⟩
  -- Others may have moved since the listing: what was gone stays gone.
  refine fun u hrely _ => ⟨hP.stable.rely hrely ht, fun n hn => ?_, fun p hp hnot => ?_⟩
  · -- A name listed that is an item's is a place's.
    rw [List.mem_filter, decide_eq_true_iff] at hn
    exact hkept.items n ((hnames n).mp hn.1) hn.2
  · have hgone : t'.file L (item p) = none := by
      by_contra hsome
      refine hnot (List.mem_filter.mpr ⟨(hnames _).mpr ?_, decide_eq_true (isItem_itemName _ _)⟩)
      exact Option.isSome_iff_ne_none.mpr hsome
    refine Stable.rely (P := fun t => t.file L (item p) = none) ?_ hrely hgone
    intro _ _ _ _ _ _ _ hmove hgone
    exact gone_move hgone hmove

/-- What every move keeps. -/
def Lasting (L : Lane) (ordered : Bool) (reader : ι → Reader) (judge : ι) (P : State ι → Prop) :
    Prop :=
  ∀ j x t t', Kept L ordered reader t → Move L ordered reader judge j x t t' → P t → P t'

private theorem Lasting.calm (h : Lasting L ordered reader judge P) :
    Calm L ordered reader judge i P :=
  fun j x t t' _ hk _ hmove => h j x t t' hk hmove

private theorem lasting_locked (S : Nat × Nat → Prop) : Lasting L ordered reader judge fun s =>
    ∀ p ∈ places, S p → (s.file L (lockOf ordered p)).isSome :=
  fun _ _ _ _ hk hmove h p hp hS => hk.locked_move hp hmove (h p hp hS)

/-- **A claim**: it is lost where the lock is there; and one that is won has every item of the lock
here and unsigned. -/
theorem safe_claimed (hp : p ∈ places) (hP : Stable L ordered reader judge i P) (h : P s)
    {next : Bool → Prog PickupOp Unit}
    (hlost : ∀ t, Kept L ordered reader t → P t → (t.file L (lockOf ordered p)).isSome →
      (outline L ordered reader judge).Safe i post (next false) t)
    (hwon : ∀ t t', Kept L ordered reader t → P t → Kept L ordered reader t' →
      Move L ordered reader judge i none t t' → (t'.file L (lockOf ordered p)).isSome →
      (∀ q ∈ places, lockOf ordered q = lockOf ordered p → Mine L ordered i q t') →
      (∀ q ∈ places, lockOf ordered q ≠ lockOf ordered p → Owns L ordered i q t' →
        Owns L ordered i q t) →
      (outline L ordered reader judge).Safe i post (next true) t') :
    (outline L ordered reader judge).Safe i post (claimed L (lockOf ordered p) >>= next) s := by
  change (outline L ordered reader judge).Safe i post
    (.call (.file (.createNew L (lockOf ordered p)) .lock) fun made => next made.isOk) s
  apply safe_call hP h
  intro t hkept ht b t' did
  rcases exec_createNew did hkept.dir with
    ⟨⟨why, rfl⟩, rfl, hsome⟩ | ⟨rfl, hfree, u, hsets, hlocks, hwatch, rfl⟩
  · exact ⟨none, .still (Still.refl t') rfl, fun _ => hlost t' hkept ht hsome⟩
  -- The lock was free, and is taken now.
  set t' := State.noted u i (.createNew L (lockOf ordered p)) .lock (.ok ()) with ht'
  have hsets' : Sets L t (lockOf ordered p) (some []) t' := ⟨hsets.dir, hsets.files, hsets.clock⟩
  have hby : t'.lockedBy L = Function.update (t.lockedBy L) (lockOf ordered p) (some i) := by
    rw [ht', ← hlocks]
    exact Function.update_self ..
  have hmove : Move L ordered reader judge i none t t' :=
    .lock hp hfree hsets' hby (congrFun hwatch L)
  have hthere : (t'.file L (lockOf ordered p)).isSome := by
    rw [hsets'.self]
    rfl
  have howns {q : Nat × Nat} (hlock : lockOf ordered q = lockOf ordered p) :
      Owns L ordered i q t' := by
    unfold Owns
    rw [hlock, hby, Function.update_self]
    exact ⟨hthere, rfl⟩
  -- While the lock was free no item of it was signed.
  have hunsigned {q : Nat × Nat} (hq : q ∈ places)
      (hlock : lockOf ordered q = lockOf ordered p) : Unsigned L q t' := by
    intro holder
    rw [hsets'.other (lockOf_ne_done hp _ _).symm]
    exact (hkept.unlocked hq (hlock ▸ hfree)).2 holder
  refine ⟨none, hmove, fun hkept' => hwon t t' hkept ht hkept' hmove hthere ?_ ?_⟩
  · intro q hq hlock
    refine ⟨howns hlock, ?_, hunsigned hq hlock, fun hordered r hr hkey _ => hunsigned hr ?_⟩
    · rw [hsets'.other (item_ne_lockOf _ hp)]
      exact (hkept.unlocked hq (hlock ▸ hfree)).1
    · -- The later items of the key have its lock.
      rw [← hlock]
      unfold lockOf
      rw [if_pos hordered, if_pos hordered, hkey]
  · -- Other locks are whose they were.
    intro q hq hne hown
    unfold Owns at hown ⊢
    rwa [hsets'.other hne, hby, Function.update_of_ne hne] at hown

/-- One item claimed: it is locked now, and gone if the claim was won. -/
theorem safe_claimItem (hp : p ∈ places) (hR : Lasting L false reader judge R) (h : R s)
    (hidle : Idle L false i s) :
    (outline L false reader judge).Safe i
      (fun _ t => (R t ∧ Idle L false i t) ∧ (t.file L (lockOf false p)).isSome)
      ((reader i).claimItem L (item p)) s := by
  have hlocked : Lasting L false reader judge fun t => (t.file L (lockOf false p)).isSome :=
    fun _ _ _ _ hk hmove hlock => hk.locked_move hp hmove hlock
  -- A claim lost leaves the item to another; one won has it processed.
  refine safe_claimed hp (hR.calm.and calm_idle).stable ⟨h, hidle⟩ ?_ ?_
  · intro t hkept ht hsome
    exact safe_end ((hR.calm.and calm_idle).and hlocked.calm).stable ⟨ht, hsome⟩
  · intro t t' hkept ⟨ht, hidle⟩ hkept' hmove hthere hmine hback
    -- Of what was taken before nothing is left, as the lock is the item's own.
    have hrest : ∀ q ∈ places, q ≠ p → Owns L false i q t' → t'.file L (item q) = none := by
      intro q hq hne howns
      have hlock : lockOf false q ≠ lockOf false p := fun heq =>
        ((lockOf_inj false q hq p hp heq).resolve_right nofun |> hne)
      exact gone_move (hidle q hq (hback q hq hlock howns)) hmove
    have hcalm : Calm L false reader judge i _ := hR.calm.and ((calm_gone (· ≠ p)).and hlocked.calm)
    refine (safe_process hp (hcalm.aside p) ⟨hR i none t t' hkept hmove ht, hrest, hthere⟩
      (hmine p hp rfl)).mono ?_
    rintro - u - ⟨⟨hu, hrest, hthere⟩, hgone⟩
    refine ⟨⟨hu, fun q hq howns => ?_⟩, hthere⟩
    by_cases hqp : q = p
    · rw [hqp]
      exact hgone
    · exact hrest q hq hqp howns

/-- **The honest claim, item by item**: every lock of the lane is taken. -/
theorem safe_perItem (hidle : Idle L false i s) (hI : Kept L false reader s) :
    (outline L false reader judge).Safe i (fun _ t => Idle L false i t ∧ AllLocked L false t)
      ((reader i).perItem L) s := by
  apply Outline.Safe.bind (safe_list calm_idle hidle) hI
  rintro names t hkept ⟨hidle, hnames, hgone⟩
  -- What was not listed was gone, and so locked; what is behind was claimed.
  let P (behind ahead : List Text) (t : State ι) : Prop :=
    (∀ p ∈ places, item p ∉ ahead → (t.file L (lockOf false p)).isSome) ∧
      (∀ n ∈ ahead, ∃ p ∈ places, n = item p) ∧ Idle L false i t
  have hstart : P [] names t := by
    refine ⟨fun p hp hnot => ?_, hnames, hidle⟩
    obtain ⟨holder, o, hdone⟩ := hkept.signed p hp (hgone p hp hnot)
    obtain ⟨j, hj, -⟩ := hkept.owned p hp holder _ hdone
    exact hj.1
  refine (Outline.Safe.forM P ?_ ?_ names [] t hkept hstart).mono ?_
  · -- While others move.
    rintro behind ahead u u' ⟨hlocked, hitems, hidle⟩ hrely -
    have hcalm : Calm L false reader judge i _ :=
      (lasting_locked fun p => item p ∉ ahead).calm.and calm_idle
    obtain ⟨hlocked', hidle'⟩ := hcalm.stable.rely hrely ⟨hlocked, hidle⟩
    exact ⟨hlocked', hitems, hidle'⟩
  · -- One item claimed.
    rintro behind n ahead u hkept ⟨hlocked, hitems, hidle⟩
    obtain ⟨p, hp, rfl⟩ := hitems n List.mem_cons_self
    have hlast : Lasting L false reader judge _ := lasting_locked fun q => item q ∉ item p :: ahead
    apply (safe_claimItem hp hlast hlocked hidle).mono
    rintro - v - ⟨⟨hlocked, hidle⟩, hthere⟩
    refine ⟨fun q hq hnot => ?_, fun n hn => hitems n (List.mem_cons_of_mem _ hn), hidle⟩
    by_cases hqp : item q = item p
    · -- Its lock is taken, by this reader or another.
      obtain rfl := itemName_inj hq hp hqp
      exact hthere
    · exact hlocked q hq fun hmem => (List.mem_cons.mp hmem).elim hqp hnot
  · rintro - u - ⟨hlocked, -, hidle⟩
    exact ⟨hidle, fun p hp => hlocked p hp nofun⟩

theorem mem_places {p : Nat × Nat} : p ∈ places ↔ p.1 < KEYS ∧ p.2 < PER_KEY := by
  unfold places
  simp only [List.mem_flatMap, List.mem_map, List.mem_range]
  constructor
  · rintro ⟨key, hkey, seq, hseq, rfl⟩
    exact ⟨hkey, hseq⟩
  · rintro ⟨hkey, hseq⟩
    exact ⟨p.1, hkey, p.2, hseq, rfl⟩

/-- The items of a key whose lock was won, in sequence: all are gone, whatever else was kept. -/
theorem safe_drainKey {key : Nat} (hkey : key < KEYS) (hR : Calm L true reader judge i R) (h : R s)
    (hmine : ∀ seq < PER_KEY, Mine L true i (key, seq) s) (hI : Kept L true reader s) :
    (outline L true reader judge).Safe i
      (fun _ t => R t ∧ ∀ seq < PER_KEY, t.file L (item (key, seq)) = none)
      ((List.range PER_KEY).forM fun seq => (reader i).process L (itemName key seq) false) s := by
  have hplace {seq : Nat} (hseq : seq < PER_KEY) : (key, seq) ∈ places :=
    mem_places.mpr ⟨hkey, hseq⟩
  -- Behind are the items gone; ahead are those still the reader's to process.
  let P (behind ahead : List Nat) (t : State ι) : Prop :=
    behind ++ ahead = List.range PER_KEY ∧ R t ∧
      (∀ seq ∈ behind, t.file L (item (key, seq)) = none) ∧
      ∀ seq ∈ ahead, Mine L true i (key, seq) t
  have hstart : P [] (List.range PER_KEY) s :=
    ⟨rfl, h, nofun, fun seq hseq => hmine seq (List.mem_range.mp hseq)⟩
  refine (Outline.Safe.forM P ?_ ?_ (List.range PER_KEY) [] s hI hstart).mono ?_
  · -- While others move.
    rintro behind ahead t t' ⟨hsplit, ht, hgone, hahead⟩ hrely -
    have hseq : ∀ seq ∈ ahead, seq < PER_KEY := fun seq hmem =>
      List.mem_range.mp (hsplit ▸ List.mem_append_right _ hmem)
    refine ⟨hsplit, hR.stable.rely hrely ht, fun seq hmem => ?_, fun seq hmem => ?_⟩
    · refine Stable.rely (P := fun t => t.file L (item (key, seq)) = none) ?_ hrely (hgone seq hmem)
      intro _ _ _ _ _ _ _ hmove hgone
      exact gone_move hgone hmove
    · exact (stable_mine (hplace (hseq seq hmem))).rely hrely (hahead seq hmem)
  · -- One item of the key processed.
    rintro behind seq ahead t hkept ⟨hsplit, ht, hgone, hahead⟩
    have hmem : ∀ n ∈ seq :: ahead, n < PER_KEY := fun n hn =>
      List.mem_range.mp (hsplit ▸ List.mem_append_right _ hn)
    -- Those ahead are the later ones of the key, which this one does not touch.
    have hlater : ∀ n ∈ ahead, seq < n := by
      have hsorted : (behind ++ seq :: ahead).Pairwise (· < ·) := by
        rw [hsplit]
        exact List.pairwise_lt_range
      exact (List.pairwise_cons.mp (List.pairwise_append.mp hsorted).2.1).1
    have haside : Aside L true reader judge i (key, seq) fun t => R t ∧
        (∀ n ∈ behind, t.file L (item (key, n)) = none) ∧
        ∀ n ∈ ahead, Mine L true i (key, n) t := by
      rintro j x u u' hother hk hk' hmove ⟨hu, hgone, hahead⟩
      refine ⟨hR.aside (key, seq) j x u u' hother hk hk' hmove hu,
        fun n hn => gone_move (hgone n hn) hmove, fun n hn => ?_⟩
      apply (hahead n hn).move (hplace (hmem n (List.mem_cons_of_mem _ hn))) hmove
      apply hother.imp_right
      intro hx q _ hle heq
      have hq : (key, seq) = q := Option.some.inj (hx.symm.trans heq)
      rw [← hq] at hle
      exact absurd hle (not_le.mpr (hlater n hn))
    have hseq := hmem seq List.mem_cons_self
    refine (safe_process (hplace hseq) haside
      ⟨ht, hgone, fun n hn => hahead n (List.mem_cons_of_mem _ hn)⟩
      (hahead seq List.mem_cons_self)).mono ?_
    rintro - u - ⟨⟨hu, hgone, hahead⟩, hself⟩
    refine ⟨by rw [List.append_assoc]; exact hsplit, hu, fun n hn => ?_, hahead⟩
    rcases List.mem_append.mp hn with hn | hn
    · exact hgone n hn
    · rw [List.mem_singleton.mp hn]
      exact hself
  · rintro - t - ⟨hsplit, ht, hgone, -⟩
    refine ⟨ht, fun seq hseq => hgone seq ?_⟩
    rw [List.append_nil] at hsplit
    rw [List.nil_append]
    exact List.mem_range.mpr hseq

/-- **The honest claim, key by key**: every lock of the lane is taken. -/
theorem safe_perKey (hidle : Idle L true i s) (hI : Kept L true reader s) :
    (outline L true reader judge).Safe i (fun _ t => Idle L true i t ∧ AllLocked L true t)
      ((reader i).perKey L) s := by
  -- The locks of the keys behind are taken.
  let P (behind ahead : List Nat) (t : State ι) : Prop :=
    behind ++ ahead = List.range KEYS ∧
      (∀ p ∈ places, p.1 ∈ behind → (t.file L (lockOf true p)).isSome) ∧ Idle L true i t
  have hstart : P [] (List.range KEYS) s :=
    ⟨rfl, fun _ _ hmem => absurd hmem List.not_mem_nil, hidle⟩
  refine (Outline.Safe.forM P ?_ ?_ (List.range KEYS) [] s hI hstart).mono ?_
  · -- While others move.
    rintro behind ahead t t' ⟨hsplit, hlocked, hidle⟩ hrely -
    have hcalm : Calm L true reader judge i _ :=
      (lasting_locked fun p => p.1 ∈ behind).calm.and calm_idle
    exact ⟨hsplit, hcalm.stable.rely hrely ⟨hlocked, hidle⟩⟩
  · -- One key claimed.
    rintro behind key ahead t hkept ⟨hsplit, hlocked, hidle⟩
    have hkey : key < KEYS := List.mem_range.mp (hsplit ▸ by simp)
    have hplace : (key, 0) ∈ places := mem_places.mpr ⟨hkey, Nat.zero_lt_succ _⟩
    have hlock {q : Nat × Nat} (hq : q.1 = key) : lockOf true q = lockOf true (key, 0) := by
      unfold lockOf
      rw [if_pos rfl, if_pos rfl, hq]
    have hbehind {u : State ι} (hthere : (u.file L (lockOf true (key, 0))).isSome)
        (hlocked : ∀ p ∈ places, p.1 ∈ behind → (u.file L (lockOf true p)).isSome) :
        ∀ p ∈ places, p.1 ∈ behind ++ [key] → (u.file L (lockOf true p)).isSome := by
      intro p hp hmem
      rcases List.mem_append.mp hmem with hmem | hmem
      · exact hlocked p hp hmem
      · rw [hlock (List.mem_singleton.mp hmem)]
        exact hthere
    have hsplit' : (behind ++ [key]) ++ ahead = List.range KEYS := by
      rw [List.append_assoc]
      exact hsplit
    have hlast : Lasting L true reader judge _ := lasting_locked fun p => p.1 ∈ behind
    have hthere : Lasting L true reader judge fun t => (t.file L (lockOf true (key, 0))).isSome :=
      fun _ _ _ _ hk hmove hlock => hk.locked_move hplace hmove hlock
    refine safe_claimed hplace (hlast.calm.and calm_idle).stable ⟨hlocked, hidle⟩ ?_ ?_
    · -- Another has the key.
      intro u hkept ⟨hlocked, hidle⟩ hsome
      refine (safe_end ((hlast.calm.and calm_idle).and hthere.calm).stable
        ⟨⟨hlocked, hidle⟩, hsome⟩).mono ?_
      rintro - v - ⟨⟨hlocked, hidle⟩, hsome⟩
      exact ⟨hsplit', hbehind hsome hlocked, hidle⟩
    · -- It is the reader's, with all its items.
      intro u u' hkept ⟨hlocked, hidle⟩ hkept' hmove hsome hmine hback
      have hrest : ∀ q ∈ places, q.1 ≠ key → Owns L true i q u' → u'.file L (item q) = none := by
        intro q hq hne howns
        have hother : lockOf true q ≠ lockOf true (key, 0) := by
          intro heq
          rcases lockOf_inj true q hq (key, 0) hplace heq with rfl | ⟨-, hsame⟩
          · exact hne rfl
          · exact hne hsame
        exact gone_move (hidle q hq (hback q hq hother howns)) hmove
      have hcalm : Calm L true reader judge i _ :=
        hlast.calm.and ((calm_gone fun q => q.1 ≠ key).and hthere.calm)
      refine (safe_drainKey hkey hcalm ⟨hlast i none u u' hkept hmove hlocked, hrest, hsome⟩
        (fun seq hseq => hmine (key, seq) (mem_places.mpr ⟨hkey, hseq⟩) (hlock rfl)) hkept').mono ?_
      rintro - v - ⟨⟨hlocked, hrest, hsome⟩, hgone⟩
      refine ⟨hsplit', hbehind hsome hlocked, fun q hq howns => ?_⟩
      by_cases hqkey : q.1 = key
      · have hq' : q = (key, q.2) := Prod.ext hqkey rfl
        rw [hq']
        exact hgone q.2 (mem_places.mp hq).2
      · exact hrest q hq hqkey howns
  · rintro - t - ⟨hsplit, hlocked, hidle⟩
    refine ⟨hidle, fun p hp => hlocked p hp ?_⟩
    rw [List.append_nil] at hsplit
    rw [List.nil_append]
    exact List.mem_range.mpr (mem_places.mp hp).1

/-! ### A whole reader -/

private theorem calm_lockedWhen (S : Prop) : Calm L ordered reader judge i fun t =>
    Idle L ordered i t ∧ (S → AllLocked L ordered t) := by
  apply calm_idle.and
  intro j x t t' hother hk hk' hmove h hS
  exact calm_allLocked j x t t' hother hk hk' hmove (h hS)

/-- A pass over one lane: where it is this one, every lock is taken. -/
theorem safe_pass {d : Lane} {S : Prop} (hidle : Idle L ordered i s)
    (hlocked : S → AllLocked L ordered s) (hI : Kept L ordered reader s) :
    (outline L ordered reader judge).Safe i
      (fun _ t => Idle L ordered i t ∧ (S ∨ L = d → AllLocked L ordered t))
      ((reader i).pass ordered false d) s := by
  by_cases hd : L = d
  · -- This lane.
    subst hd
    have hmono : ∀ (_ : Unit) t, Kept L ordered reader t →
        Idle L ordered i t ∧ AllLocked L ordered t →
          Idle L ordered i t ∧ (S ∨ L = L → AllLocked L ordered t) :=
      fun _ _ _ h => ⟨h.1, fun _ => h.2⟩
    cases ordered with
    | true => exact (safe_perKey hidle hI).mono hmono
    | false => exact (safe_perItem hidle hI).mono hmono
  · -- Another, which is nothing to this one.
    refine (safe_elsewhere (only_pass hd ordered false) (calm_lockedWhen S) ⟨hidle, hlocked⟩).mono
      ?_
    intro _ t _ h
    exact ⟨h.1, fun hor => h.2 (hor.resolve_right hd)⟩

/-- A listing of any lane keeps what is kept. -/
theorem safe_look (d : Lane) (hP : Calm L ordered reader judge i P) (h : P s) :
    (outline L ordered reader judge).Safe i (fun _ => P) (list d .plain) s := by
  by_cases hd : L = d
  · subst hd
    exact (safe_list hP h).mono fun _ _ _ ht => ht.1
  · exact safe_elsewhere (only_list hd .plain) hP h

/-- The lanes an unshared reader scans are its own. -/
theorem safe_lanes (hP : Calm L ordered reader judge i P) (h : P s) :
    (outline L ordered reader judge).Safe i
      (fun lanes t => P t ∧ ((reader i).shared = false → (reader i).own ∈ lanes))
      (reader i).lanes s := by
  unfold Reader.lanes
  split
  · next hshared =>
    refine (safe_elsewhere ?_ hP h).mono fun _ t _ ht => ⟨ht, fun hno => ?_⟩
    · refine ⟨trivial, fun b => ?_⟩
      cases b <;> trivial
    · rw [hshared] at hno
      cases hno
  · intro t hrely _
    exact ⟨hP.stable.rely hrely h, fun _ => List.mem_singleton.mpr rfl⟩

/-- **Rescans**: an unshared reader of the lane leaves every lock taken after the first. -/
theorem safe_scan (passes : Nat) (hidle : Idle L ordered i s) (hI : Kept L ordered reader s)
    (hlocked : passes = 0 → (reader i).shared = false → (reader i).own = L →
      AllLocked L ordered s) :
    (outline L ordered reader judge).Safe i (fun _ t => Idle L ordered i t ∧
      ((reader i).shared = false → (reader i).own = L → AllLocked L ordered t))
      ((reader i).scan ordered false passes) s := by
  induction passes generalizing s with
  | zero =>
    refine (safe_end (calm_lockedWhen ((reader i).shared = false ∧ (reader i).own = L)).stable
      ⟨hidle, fun h => hlocked rfl h.1 h.2⟩).mono ?_
    intro _ t _ h
    exact ⟨h.1, fun hshared hown => h.2 ⟨hshared, hown⟩⟩
  | succ passes ih =>
    -- The lanes, a pass over each, and a look at what is left of the reader's own.
    apply Outline.Safe.bind (safe_lanes calm_idle hidle) hI
    rintro lanes t hkept ⟨hidle, hown⟩
    let P (behind _ : List Lane) (t : State ι) : Prop :=
      Idle L ordered i t ∧ (L ∈ behind → AllLocked L ordered t)
    have hstart : P [] lanes t := ⟨hidle, fun hmem => absurd hmem List.not_mem_nil⟩
    have hpass := Outline.Safe.forM P
      (fun behind ahead u u' h hrely _ => (calm_lockedWhen (L ∈ behind)).stable.rely hrely h)
      (fun behind d ahead u hkept h => (safe_pass h.1 h.2 hkept).mono fun _ v _ hv =>
        ⟨hv.1, fun hmem => hv.2 ((List.mem_append.mp hmem).imp_right List.mem_singleton.mp)⟩)
      lanes [] t hkept hstart
    apply Outline.Safe.bind hpass hkept
    rintro - u hkept ⟨hidle, hbehind⟩
    have hlocked : (reader i).shared = false ∧ (reader i).own = L → AllLocked L ordered u :=
      fun h => hbehind (by rw [← h.2]; exact hown h.1)
    refine Outline.Safe.bind (safe_look (reader i).own (calm_lockedWhen _) ⟨hidle, hlocked⟩) hkept
      ?_
    rintro left v hkept ⟨hidle, hlocked⟩
    -- Nothing is left, or it scans again.
    split
    · refine (safe_end (calm_lockedWhen _).stable ⟨hidle, hlocked⟩).mono ?_
      intro _ w _ h
      exact ⟨h.1, fun hshared hown => h.2 ⟨hshared, hown⟩⟩
    · exact ih hidle hkept fun _ hshared hown => hlocked ⟨hshared, hown⟩

/-- **A whole reader**: it ends with nothing left of what it took, and, where it scans no other
lane, with every lock taken. -/
theorem safe_run (hidle : Idle L ordered i s) (hI : Kept L ordered reader s) :
    (outline L ordered reader judge).Safe i (fun _ t => Idle L ordered i t ∧
      ((reader i).shared = false → (reader i).own = L → AllLocked L ordered t))
      ((reader i).run ordered false) s :=
  safe_scan SCANS hidle hI nofun

end XmipEssentials.ExclusiveClaim
