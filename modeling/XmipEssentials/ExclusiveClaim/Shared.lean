import XmipEssentials.ExclusiveClaim.Unshared

/-!
# A shared lane

The lane of a process others share is drained by whoever gets there first, while its judge looks: at
the done records first, then at the items left. Between the two looks an item may become a record.

`Looked` says what the judge knows after its first look, step by step, and `settle_complete_iff`
what that comes to: where the judge finds the lane drained, its ledger is complete, and the round
held, just where no record was created after the judge listed them nor written after it read it.
`settle_late` is a run in which every item has one holder and the round is judged missed.
-/

namespace XmipEssentials.ExclusiveClaim

open Text Conc Files

variable {ι : Type} {L : Lane} {ordered : Bool} {reader : ι → Reader} {owner i j : ι}
  {s s' : State ι} {p : Nat × Nat} {names : List Text} {read : List (Text × Text)}

/-! ### Between the two looks -/

/-- A name of a done record. -/
def IsDone (name : Text) : Prop := (splitOnce doneMark name).isSome

instance : DecidablePred IsDone := fun _ => inferInstanceAs (Decidable (_ = true))

/-- What a name and the content read of it say. -/
def recordRead (name content : Text) : Option Processed :=
  (splitOnce doneMark name).map fun halves => Processed.ofContent halves.1 halves.2 content

/-- What the judge knows that has listed `names` and read the contents of `read`: where it is not
late, all the records there are, as they are now — a record that was empty may since say the zero it
reads as; and where it is late, a record that is not listed, or one that was read empty and says
more. -/
structure Looked (L : Lane) (names : List Text) (read : List (Text × Text)) (s : State ι) :
    Prop where
  here : ∀ n ∈ names, IsDone n → (s.file L n).isSome
  seen : ∀ n, n ∈ (s.watch L).seen ↔ n ∈ read.map Prod.fst
  all : (s.watch L).late = false → ∀ n, IsDone n → (s.file L n).isSome → n ∈ names
  same : (s.watch L).late = false → ∀ entry ∈ read, ∃ c, s.file L entry.1 = some c ∧
    (entry.2 = c ∨ entry.2 = [] ∧ c = doneContent 0 false)
  late : (s.watch L).late = true → (∃ n, IsDone n ∧ (s.file L n).isSome ∧ n ∉ names) ∨
    ∃ entry ∈ read, entry.2 = [] ∧ ∃ o, o ≠ 0 ∧ s.file L entry.1 = some (doneContent o false)

/-- An item's lock, and what else is no record, stands apart from records. -/
theorem IsDone.ne {n name : Text} (h : IsDone n) (hname : splitOnce doneMark name = none) :
    n ≠ name := by
  rintro rfl
  rw [IsDone, hname] at h
  cases h

private theorem isDone_done (p : Nat × Nat) (holder : Text) : IsDone (done p holder) := by
  rw [IsDone, splitOnce_doneName (dot_not_mem_itemName _ _)]
  rfl

private theorem splitOnce_item (p : Nat × Nat) : splitOnce doneMark (item p) = none :=
  splitOnce_none (dot_not_mem_itemName _ _)

/-- Where the records and what is told of the judge are as they were, so is what it knows. -/
theorem Looked.of_same (h : Looked L names read s) (hread : ∀ entry ∈ read, IsDone entry.1)
    (hfiles : ∀ n, IsDone n → s'.file L n = s.file L n)
    (hlate : (s'.watch L).late = (s.watch L).late) (hseen : (s'.watch L).seen = (s.watch L).seen) :
    Looked L names read s' where
  here n hn hdone := by
    -- nothing of the records changed, nor of what was noted, so every clause stands
    rw [hfiles n hdone]
    exact h.here n hn hdone
  seen n := by
    rw [hseen]
    exact h.seen n
  all hno n hdone hthere := by
    rw [hlate] at hno
    rw [hfiles n hdone] at hthere
    exact h.all hno n hdone hthere
  same hno entry hentry := by
    rw [hlate] at hno
    rw [hfiles _ (hread entry hentry)]
    exact h.same hno entry hentry
  late hyes := by
    rw [hlate] at hyes
    rcases h.late hyes with ⟨n, hdone, hthere, hnot⟩ | ⟨entry, hentry, hempty, o, ho, hfile⟩
    · exact .inl ⟨n, hdone, by rwa [hfiles n hdone], hnot⟩
    · exact .inr ⟨entry, hentry, hempty, o, ho, by rwa [hfiles _ (hread entry hentry)]⟩

/-- A record created is one the judge has not listed. -/
theorem Looked.sign (h : Looked L names read s) {holder : Text}
    (hfree : s.file L (done p holder) = none) (hsets : Sets L s (done p holder) (some []) s')
    (hwatch : s'.watch L = { s.watch L with late := true }) : Looked L names read s' where
  here n hn hdone := by
    by_cases heq : n = done p holder
    · rw [heq, hsets.self]
      rfl
    · rw [hsets.other heq]
      exact h.here n hn hdone
  seen n := by
    rw [hwatch]
    exact h.seen n
  all hno := by
    rw [hwatch] at hno
    cases hno
  same hno := by
    rw [hwatch] at hno
    cases hno
  late _ := by
    -- What the judge listed is there still, and this one was not there.
    refine .inl ⟨_, isDone_done p holder, by rw [hsets.self]; rfl, fun hmem => ?_⟩
    have hthere := h.here _ hmem (isDone_done p holder)
    rw [hfree] at hthere
    cases hthere

/-- A record written is one the judge has not read, one it read empty, or one that says zero. -/
theorem Looked.write (h : Looked L names read s) {holder : Text} {o : Nat}
    (hempty : s.file L (done p holder) = some [])
    (hsets : Sets L s (done p holder) (some (doneContent o false)) s')
    (hwatch : s'.watch L = if done p holder ∈ (s.watch L).seen ∧ o ≠ 0 then
      { s.watch L with late := true } else s.watch L) : Looked L names read s' := by
  have hhere : ∀ n, (s.file L n).isSome → (s'.file L n).isSome := by
    intro n hthere
    by_cases heq : n = done p holder
    · rw [heq, hsets.self]
      rfl
    · rwa [hsets.other heq]
  -- What the judge read of the record while it is empty is empty.
  have hread (hno : (s.watch L).late = false) {entry : Text × Text} (hentry : entry ∈ read)
      (heq : entry.1 = done p holder) : entry.2 = [] := by
    obtain ⟨c, hc, hsame⟩ := h.same hno entry hentry
    rw [heq, hempty] at hc
    cases hc
    rcases hsame with hsame | ⟨-, hzero⟩
    · exact hsame
    · exact absurd hzero.symm (doneContent_ne_nil _ _)
  -- What made the judge late before still does: neither a record that was read empty and says more
  -- by now, nor one that was not listed, is the one written.
  have hlate : (s.watch L).late = true →
      (∃ n, IsDone n ∧ (s'.file L n).isSome ∧ n ∉ names) ∨ ∃ entry ∈ read, entry.2 = [] ∧
        ∃ o, o ≠ 0 ∧ s'.file L entry.1 = some (doneContent o false) := by
    intro hyes
    rcases h.late hyes with ⟨n, hdone, hthere, hnot⟩ | ⟨entry, hentry, hnil, o', ho', hfile⟩
    · exact .inl ⟨n, hdone, hhere n hthere, hnot⟩
    · refine .inr ⟨entry, hentry, hnil, o', ho', ?_⟩
      have hne : entry.1 ≠ done p holder := by
        intro heq
        rw [heq, hempty] at hfile
        exact absurd (Option.some.inj hfile).symm (doneContent_ne_nil _ _)
      rwa [hsets.other hne]
  -- Only where the judge has read the record, and it says more than zero now, does it come late.
  by_cases hseen : done p holder ∈ (s.watch L).seen ∧ o ≠ 0
  · rw [if_pos hseen] at hwatch
    refine ⟨fun n hn hdone => hhere n (h.here n hn hdone), fun n => ?_, fun hno => ?_,
      fun hno => ?_, fun _ => ?_⟩
    · rw [hwatch]
      exact h.seen n
    · rw [hwatch] at hno
      cases hno
    · rw [hwatch] at hno
      cases hno
    · -- It was late already, or it is from now on, by the record it read empty.
      by_cases hyes : (s.watch L).late = true
      · exact hlate hyes
      · obtain ⟨entry, hentry, heq⟩ := List.mem_map.mp ((h.seen _).mp hseen.1)
        refine .inr ⟨entry, hentry, hread (Bool.not_eq_true _ ▸ hyes) hentry heq, o, hseen.2, ?_⟩
        rw [heq, hsets.self]
  · rw [if_neg hseen] at hwatch
    refine ⟨fun n hn hdone => hhere n (h.here n hn hdone), fun n => ?_,
      fun hno n hdone hthere => ?_, fun hno entry hentry => ?_, fun hyes => ?_⟩
    · rw [hwatch]
      exact h.seen n
    · rw [hwatch] at hno
      apply h.all hno n hdone
      by_cases heq : n = done p holder
      · rw [heq, hempty]
        rfl
      · rwa [hsets.other heq] at hthere
    · rw [hwatch] at hno
      by_cases heq : entry.1 = done p holder
      · -- A record read says zero now, or the judge would be late.
        have hzero : o = 0 := by
          by_contra hne
          refine hseen ⟨(h.seen _).mpr ?_, hne⟩
          rw [← heq]
          exact List.mem_map_of_mem hentry
        rw [heq, hsets.self, hzero]
        exact ⟨_, rfl, .inr ⟨hread hno hentry heq, rfl⟩⟩
      · rw [hsets.other heq]
        exact h.same hno entry hentry
    · rw [hwatch] at hyes
      exact hlate hyes

/-- **What the judge knows stays so** while the others move. -/
theorem stable_looked (hread : ∀ entry ∈ read, IsDone entry.1) :
    Stable L ordered reader owner owner (Looked L names read) := by
  intro j x t t' hne _ _ hmove h
  -- Only creating a record and writing one are anything to the judge.
  cases hmove with
  | still still watch =>
    exact h.of_same hread (fun n _ => still.files n) (by rw [watch]) (by rw [watch])
  | judged who still => exact absurd who hne
  | lock place free sets owns watch =>
    refine h.of_same hread (fun n hdone => ?_) (by rw [watch]) (by rw [watch])
    exact sets.other (hdone.ne (splitOnce_lockOf ordered _ place))
  | sign place owns here unsigned sets lockedBy watch => exact h.sign (unsigned _) sets watch
  | write place owns here empty fresh last sets lockedBy watch => exact h.write empty sets watch
  | remove place owns written sets lockedBy watch =>
    refine h.of_same hread (fun n hdone => ?_) (by rw [watch]) (by rw [watch])
    exact sets.other (hdone.ne (splitOnce_item _))

/-! ### The judge's looks -/

private theorem watch_watched (w : Watch) : (s.watched L w).watch L = w :=
  Function.update_self ..

/-- What the judge's call tells changes nothing but what is told of it. -/
theorem still_watched (w : Watch) : Still L s (s.watched L w) :=
  ⟨id, fun _ => rfl, rfl, fun _ => le_refl _⟩

/-- The judge lists the records: it knows all there are. -/
theorem exec_look {b : Except Text (List Text)} (h : exec i (.file (.list L) .look) s b s')
    (hdir : (s.store L).isSome) :
    Still L s s' ∧ ∃ names, b = .ok names ∧ Looked L names [] s' := by
  obtain ⟨store, hmay, rfl⟩ := exec_file h
  obtain ⟨rfl, hlist, hok⟩ := hmay.list
  obtain ⟨names, rfl⟩ := hok not_false hdir
  refine ⟨still_watched _, names, rfl, ?_⟩
  have hnames := (hlist names rfl).2
  have hwatch : (State.noted s i (.list L) .look (.ok names)).watch L = ⟨false, [], false⟩ :=
    watch_watched _
  refine ⟨fun n hn _ => (hnames n).mp hn, fun n => ?_, fun _ n _ hthere => (hnames n).mpr hthere,
    fun _ _ hentry => absurd hentry List.not_mem_nil, fun hyes => ?_⟩
  · change n ∈ ((State.noted s i (.list L) .look (.ok names)).watch L).seen ↔ _
    rw [hwatch]
    rfl
  · change ((State.noted s i (.list L) .look (.ok names)).watch L).late = true at hyes
    rw [hwatch] at hyes
    cases hyes

/-- The judge reads a record it listed: it knows what the record says. -/
theorem exec_see {name : Text} {b : Except Text (List Char)}
    (h : exec i (.file (.read L name) .see) s b s') (hlooked : Looked L names read s)
    (hname : name ∈ names) (hdone : IsDone name) :
    Still L s s' ∧ Looked L names (read ++ [(name, b.toOption.getD [])]) s' := by
  obtain ⟨store, hmay, rfl⟩ := exec_file h
  obtain ⟨rfl, -, hok⟩ := hmay.read
  -- a record listed is still there, so the read is not refused
  obtain ⟨c, hc⟩ := Option.isSome_iff_exists.mp (hlooked.here name hname hdone)
  obtain rfl := hok not_false c hc
  have hwatch : (State.noted s i (.read L name) .see (.ok c)).watch L =
      { s.watch L with seen := name :: (s.watch L).seen } := watch_watched _
  have hlate : ((State.noted s i (.read L name) .see (.ok c)).watch L).late = (s.watch L).late := by
    rw [hwatch]
  refine ⟨still_watched _, ⟨hlooked.here, fun n => ?_, fun hno => ?_, fun hno entry hentry => ?_,
    fun hyes => ?_⟩⟩
  · -- it is noted as seen
    change n ∈ ((State.noted s i (.read L name) .see (.ok c)).watch L).seen ↔ _
    rw [hwatch, List.map_append, List.mem_append, List.mem_cons, hlooked.seen]
    exact or_comm.trans (or_congr_right List.mem_singleton.symm)
  · exact hlooked.all (hlate.symm.trans hno)
  · -- it is read as it stands, so it is the same until it is written
    rcases List.mem_append.mp hentry with hentry | hentry
    · exact hlooked.same (hlate.symm.trans hno) entry hentry
    · rw [List.mem_singleton.mp hentry]
      exact ⟨c, hc, .inl rfl⟩
  · -- reading it makes nothing late that was not
    rcases hlooked.late (hlate.symm.trans hyes) with hmissed | ⟨entry, hentry, hrest⟩
    · exact .inl hmissed
    · exact .inr ⟨entry, List.mem_append_left _ hentry, hrest⟩

/-- The judge lists the items left: it finds none just where none is. -/
theorem exec_find {b : Except Text (List Text)} (h : exec i (.file (.list L) .find) s b s')
    (hkept : Kept L ordered reader s) :
    Still L s s' ∧ (s'.watch L).late = (s.watch L).late ∧ (s'.watch L).seen = (s.watch L).seen ∧
      ((s'.watch L).found = true ↔ Drained L s') ∧
      ∃ names, b = .ok names ∧ (s'.watch L).found = decide (names.filter IsItem = []) := by
  obtain ⟨store, hmay, rfl⟩ := exec_file h
  obtain ⟨rfl, hlist, hok⟩ := hmay.list
  obtain ⟨names, rfl⟩ := hok not_false hkept.dir
  have hnames := (hlist names rfl).2
  have hwatch : (State.noted s i (.list L) .find (.ok names)).watch L =
      { s.watch L with found := names.filter IsItem = [] } := watch_watched _
  have hlate : ((State.noted s i (.list L) .find (.ok names)).watch L).late = (s.watch L).late := by
    rw [hwatch]
  have hseen : ((State.noted s i (.list L) .find (.ok names)).watch L).seen = (s.watch L).seen := by
    rw [hwatch]
  have hfound : ((State.noted s i (.list L) .find (.ok names)).watch L).found =
      decide (names.filter IsItem = []) := by
    rw [hwatch]
  refine ⟨still_watched _, hlate, hseen, (Bool.eq_iff_iff.mp hfound).trans ?_, names, rfl, hfound⟩
  rw [decide_eq_true_iff, List.filter_eq_nil_iff]
  -- No item listed, no item there, and the other way about.
  constructor
  · intro hnone p _
    by_contra hthere
    apply hnone (item p) ((hnames _).mpr (Option.isSome_iff_ne_none.mpr hthere))
    exact decide_eq_true (isItem_itemName _ _)
  · intro hdrained n hn hitem
    have hthere := (hnames n).mp hn
    obtain ⟨p, hp, rfl⟩ := hkept.items n hthere (of_decide_eq_true hitem)
    have hgone : s.file L (item p) = none := hdrained p hp
    rw [State.file] at hgone
    rw [hgone] at hthere
    cases hthere

/-- What the judge made of what it read. -/
def Judged (L : Lane) (processed : List Processed) (s : State ι) : Prop :=
  ∃ names read, Looked L names read s ∧ read.map Prod.fst = names.filter IsDone ∧
    processed = read.filterMap fun entry => recordRead entry.1 entry.2

private theorem isDone_of_map {l : List Text} (h : read.map Prod.fst = l.filter IsDone) :
    ∀ entry ∈ read, IsDone entry.1 := by
  intro entry hentry
  have hmem : entry.1 ∈ l.filter IsDone := h ▸ List.mem_map_of_mem hentry
  exact of_decide_eq_true (List.mem_filter.mp hmem).2

private theorem stable_judged (processed : List Processed) :
    Stable L ordered reader owner owner (Judged L processed) := by
  rintro j x t t' hne hk hk' hmove ⟨names, read, hlooked, hmap, rfl⟩
  exact ⟨names, read, stable_looked (isDone_of_map hmap) j x t t' hne hk hk' hmove hlooked, hmap,
    rfl⟩

/-- **The ledger** is what the judge made of what it read. -/
theorem safe_ledger : (outline L ordered reader owner).Safe owner
    (fun processed => Judged L processed) (ledger L) s := by
  have htrue : Stable L ordered reader owner owner fun _ => True := fun _ _ _ _ _ _ _ _ _ => trivial
  -- The list of the records comes first; each is then read, one after the other, while others move.
  apply safe_call htrue trivial
  intro t hkept _ b t' did
  obtain ⟨hstill, names, rfl, hlooked⟩ := exec_look did hkept.dir
  refine ⟨none, .judged rfl hstill, fun hkept' => ?_⟩
  -- What is behind was read, each record of it once and in order.
  let P (behind : List Text) (results : List (Option Processed)) (ahead : List Text)
      (t : State ι) : Prop :=
    behind ++ ahead = names ∧ ∃ read, Looked L names read t ∧
      read.map Prod.fst = behind.filter IsDone ∧
      results.filterMap id = read.filterMap fun entry => recordRead entry.1 entry.2
  have hstable : ∀ behind results ahead t t', P behind results ahead t →
      (outline L ordered reader owner).rely owner t t' → P behind results ahead t' := by
    rintro behind results ahead t t' ⟨hsplit, read, hlooked, hmap, hresults⟩ hrely
    exact ⟨hsplit, read, (stable_looked (isDone_of_map hmap)).rely hrely hlooked, hmap, hresults⟩
  change (outline L ordered reader owner).Safe owner _
    (Prog.each (readDone L) names >>= fun records =>
    pure (records.filterMap id)) t'
  refine Outline.Safe.bind
    (Outline.Safe.each P (fun _ _ _ _ _ h hrely _ => hstable _ _ _ _ _ h hrely) ?_ names [] [] t'
      hkept' ⟨rfl, [], hlooked, rfl, rfl⟩) hkept' ?_
  · rintro behind results name ahead u hkept ⟨hsplit, read, hlooked, hmap, hresults⟩
    have hname : name ∈ names := hsplit ▸ by simp
    have hsplit' : (behind ++ [name]) ++ ahead = names := by
      rw [List.append_assoc]
      exact hsplit
    unfold readDone
    split
    · next hnone =>
      -- No record's name is passed over.
      have hnot : ¬IsDone name := fun hdone => hdone.ne hnone rfl
      refine fun v hrely _ => hstable _ _ _ u v ⟨hsplit', read, hlooked, ?_, ?_⟩ hrely
      · rw [hmap, List.filter_append, List.filter_singleton, decide_eq_false hnot]
        simp
      · rw [List.filterMap_append, hresults]
        simp
    · next it holder hsome =>
      have hdone : IsDone name := by
        rw [IsDone, hsome]
        rfl
      refine safe_call (stable_looked (isDone_of_map hmap)) hlooked
        fun v hkept hlooked raw v' did => ?_
      obtain ⟨hstill, hlooked'⟩ := exec_see did hlooked hname hdone
      refine ⟨none, .judged rfl hstill, fun _ w hrely _ => hstable _ _ _ v' w
        ⟨hsplit', _, hlooked', ?_, ?_⟩ hrely⟩
      · rw [List.map_append, hmap, List.filter_append, List.filter_singleton, decide_eq_true hdone]
        rfl
      · rw [List.filterMap_append, List.filterMap_append, hresults]
        unfold recordRead
        simp [hsome]
  · -- At the end all that was listed is behind.
    rintro records u - ⟨hsplit, read, hlooked, hmap, hresults⟩
    rw [List.nil_append, List.append_nil] at hsplit
    rw [List.nil_append] at hmap hresults
    intro v hrely _
    exact (stable_judged _).rely hrely ⟨names, read, hlooked, hmap, hresults⟩

/-- What the judge ends with: its ledger, and a drained lane where it found it so. -/
def Settled (L : Lane) (processed : List Processed) (s : State ι) : Prop :=
  Judged L processed s ∧ ((s.watch L).found = true → Drained L s)

private theorem stable_settled (processed : List Processed) :
    Stable L ordered reader owner owner (Settled L processed) := by
  rintro j x t t' hne hk hk' hmove ⟨hjudged, hfound⟩
  refine ⟨stable_judged processed j x t t' hne hk hk' hmove hjudged, fun hyes p hp => ?_⟩
  -- What the judge found is told by its own call alone, and what is gone stays gone.
  have hsame : (t'.watch L).found = (t.watch L).found := by
    cases hmove with
    | still still watch => rw [watch]
    | judged who still => exact absurd who hne
    | lock place free sets owns watch => rw [watch]
    | sign place owns here unsigned sets lockedBy watch => rw [watch]
    | write place owns here empty fresh last sets lockedBy watch =>
      rw [watch]
      split <;> rfl
    | remove place owns written sets lockedBy watch => rw [watch]
  exact gone_move (hfound (hsame.symm.trans hyes) p hp) hmove

/-- One turn of the judge: its ledger, then its look at what is left. -/
theorem safe_turn {next : List Processed → List Text → Prog PickupOp (List Processed)}
    (hI : Kept L ordered reader s)
    (hnext : ∀ processed left t, Kept L ordered reader t → Settled L processed t →
      (outline L ordered reader owner).Safe owner (fun processed => Settled L processed)
        (next processed left) t) :
    (outline L ordered reader owner).Safe owner (fun processed => Settled L processed)
      (ledger L >>= fun processed => list L .find >>= fun left => next processed left) s := by
  -- The ledger is what was read before the second look, which changes nothing of it.
  apply Outline.Safe.bind safe_ledger hI
  intro processed t hkept hjudged
  apply safe_call (stable_judged processed) hjudged
  intro u hkept hjudged b u' did
  obtain ⟨hstill, hlate, hseen, hfound, -⟩ := exec_find did hkept
  refine ⟨none, .judged rfl hstill, fun hkept' => ?_⟩
  have hsettled : Settled L processed u' := by
    refine ⟨?_, hfound.mp⟩
    obtain ⟨names, read, hlooked, hmap, rfl⟩ := hjudged
    exact ⟨names, read, hlooked.of_same (isDone_of_map hmap) (fun n _ => hstill.files n) hlate
      hseen, hmap, rfl⟩
  cases b with
  | error why => exact hnext processed _ u' hkept' hsettled
  | ok names => exact hnext processed _ u' hkept' hsettled

/-- **The judge's wait.** -/
theorem safe_settleIn (turns : Nat) (hI : Kept L ordered reader s) :
    (outline L ordered reader owner).Safe owner (fun processed => Settled L processed)
      (settleIn true L turns) s := by
  -- The last turn is taken as it is; one before it only where nothing is left or something was
  -- processed twice.
  induction turns generalizing s with
  | zero =>
    exact safe_turn hI fun processed left t _ hsettled u hrely _ =>
      (stable_settled processed).rely hrely hsettled
  | succ turns ih =>
    apply safe_turn hI
    intro processed left t hkept hsettled
    split
    · intro u hrely _
      exact (stable_settled processed).rely hrely hsettled
    · exact ih hkept

private theorem safe_settle :
    (outline L ordered reader owner).Safe owner (fun processed => Settled L processed)
      (settle true L) s := by
  have htrue : Stable L ordered reader owner owner fun _ => True := fun _ _ _ _ _ _ _ _ _ => trivial
  apply safe_call htrue trivial
  intro t hkept _ turns t' did
  obtain rfl := did
  exact ⟨none, .still (Still.refl t') rfl, fun hkept => safe_settleIn turns hkept⟩

/-! ### What the ledger comes to -/

/-- The ledger holds, for every item of the lane, one record, as it is written in the lane. -/
def Complete (L : Lane) (processed : List Processed) (s : State ι) : Prop :=
  ∀ p ∈ places, ∃ h o, s.file L (done p h) = some (doneContent o false) ∧
    ∀ r, r ∈ processed ∧ r.item = item p ↔ r = ⟨item p, p.1, p.2, h, o, false⟩

/-- A judge that is not late has read all the records there are. -/
theorem records_of_not_late (hjudged : Looked L names read s)
    (hmap : read.map Prod.fst = names.filter IsDone) (hlate : (s.watch L).late = false) :
    NamesRecords L names s ∧
      read.filterMap (fun entry => recordRead entry.1 entry.2) =
        names.filterMap (recordOf L s) := by
  refine ⟨fun n hdone => ⟨fun hn => hjudged.here n hn hdone, hjudged.all hlate n hdone⟩, ?_⟩
  have hrecord : ∀ entry ∈ read, recordRead entry.1 entry.2 = recordOf L s entry.1 := by
    intro entry hentry
    obtain ⟨c, hc, hsame⟩ := hjudged.same hlate entry hentry
    unfold recordRead recordOf
    rw [hc, Option.getD_some]
    -- The judge read what the record says now, or read it empty where it says zero.
    rcases hsame with rfl | ⟨hnil, rfl⟩
    · rfl
    · -- What is empty and what says zero read the same.
      rw [hnil]
      rfl
  have hothers : names.filterMap (recordOf L s) = (names.filter IsDone).filterMap
    (recordOf L s) := by
    rw [List.filterMap_filter]
    congr 1
    funext n
    by_cases hdone : IsDone n
    · rw [if_pos (decide_eq_true hdone)]
    · rw [if_neg (by rw [decide_eq_false hdone]; nofun)]
      have hnone : splitOnce doneMark n = none := Option.not_isSome_iff_eq_none.mp hdone
      unfold recordOf
      rw [hnone, Option.map_none]
  rw [hothers, ← hmap, List.filterMap_map]
  exact List.filterMap_congr hrecord

/-- **The ledger of a drained lane is complete just where its judge was not late**; and then the
round is held. -/
theorem complete_iff_not_late {style : Style} (hkept : Kept L style.ordered reader s)
    (hdrained : Drained L s) {processed : List Processed} (hjudged : Judged L processed s) :
    (Complete L processed s ∧ ∃ line, judge style places.length processed = .held line) ↔
      (s.watch L).late = false := by
  obtain ⟨names, read, hlooked, hmap, rfl⟩ := hjudged
  constructor
  · -- A complete ledger: the judge was not late.
    rintro ⟨hcomplete, -⟩
    -- Were it late, a record would be missing in the ledger, or be in it with another order.
    rw [Bool.eq_false_iff]
    intro hlate
    rcases hlooked.late hlate with ⟨n, hdone, hthere, hnot⟩ | ⟨⟨n, c⟩, hentry, hnil, o, ho, hfile⟩
    · obtain ⟨⟨it, h⟩, hsplit⟩ := Option.isSome_iff_exists.mp hdone
      obtain ⟨p, hp, rfl⟩ := hkept.records n it h hthere hsplit
      obtain rfl := doneName_of_splitOnce (dot_not_mem_itemName _ _) hsplit
      obtain ⟨c, hc⟩ := Option.isSome_iff_exists.mp hthere
      obtain ⟨h', o, hfile, hrecord⟩ := hcomplete p hp
      obtain rfl := holder_unique hkept hp hc hfile
      -- The record in the ledger was read under a name the judge listed.
      obtain ⟨hmem, -⟩ := (hrecord _).mpr rfl
      obtain ⟨⟨n, c'⟩, hentry, hread⟩ := List.mem_filterMap.mp hmem
      obtain ⟨⟨it, h'⟩, hsplit', heq⟩ := Option.map_eq_some_iff.mp hread
      simp only [Processed.ofContent, Processed.mk.injEq] at heq
      obtain ⟨rfl, -, -, rfl, -⟩ := heq
      have hname := doneName_of_splitOnce (dot_not_mem_itemName _ _) hsplit'
      apply hnot
      have hlisted : n ∈ names.filter IsDone := hmap ▸ List.mem_map_of_mem hentry
      exact hname ▸ (List.mem_filter.mp hlisted).1
    · have hdone := isDone_of_map hmap _ hentry
      obtain ⟨⟨it, h⟩, hsplit⟩ := Option.isSome_iff_exists.mp hdone
      dsimp only at hsplit hfile hnil
      obtain ⟨p, hp, rfl⟩ := hkept.records n it h (hfile ▸ rfl) hsplit
      obtain rfl := doneName_of_splitOnce (dot_not_mem_itemName _ _) hsplit
      obtain ⟨h', o', hfile', hrecord⟩ := hcomplete p hp
      obtain rfl := holder_unique hkept hp hfile hfile'
      rw [hfile] at hfile'
      have hsame := doneContent_inj (Option.some.inj hfile')
      have hmem : Processed.ofContent (item p) h c ∈
          read.filterMap fun entry => recordRead entry.1 entry.2 := by
        refine List.mem_filterMap.mpr ⟨_, hentry, ?_⟩
        unfold recordRead
        rw [hsplit, Option.map_some]
      have heq := (hrecord _).mp ⟨hmem, rfl⟩
      rw [hnil] at heq
      exact ho (hsame.trans (congrArg Processed.order heq).symm)
  · intro hlate
    -- A judge that was not late has read every record there is, and a drained lane has one of each
    -- item.
    obtain ⟨hrecords, hread⟩ := records_of_not_late hlooked hmap hlate
    rw [hread]
    refine ⟨fun p hp => ?_, judge_drained hkept hdrained hrecords⟩
    obtain ⟨h, o, hfile⟩ := hkept.signed p hp (hdrained p hp)
    refine ⟨h, o, hfile, fun r => ?_⟩
    rw [mem_records hkept hdrained hrecords]
    constructor
    · rintro ⟨⟨q, hq, h', o', hfile', rfl⟩, hitem⟩
      obtain rfl := itemName_inj hq hp hitem
      obtain rfl := holder_unique hkept hq hfile' hfile
      rw [hfile] at hfile'
      rw [doneContent_inj (Option.some.inj hfile')]
    · rintro rfl
      exact ⟨⟨p, hp, h, o, hfile, rfl⟩, rfl⟩

/-! ### Processes that share a lane -/

section

variable {d : Lane}

private theorem only_settleIn (hd : L ≠ d) (shared : Bool) (turns : Nat) :
    (settleIn shared d turns).Only (Elsewhere L) := by
  have hledger : (ledger d).Only (Elsewhere L) := by
    refine ⟨hd, fun b => ?_⟩
    cases b with
    | error why => trivial
    | ok names =>
      refine (Prog.Only.each (fun name => ?_) names).bind fun records => trivial
      unfold readDone
      split
      · trivial
      · exact ⟨hd, fun _ => trivial⟩
  induction turns with
  | zero => exact hledger.bind fun processed => (only_list hd .find).bind fun left => trivial
  | succ turns ih =>
    refine hledger.bind fun processed => (only_list hd .find).bind fun left => ?_
    split
    · trivial
    · exact ih

private theorem only_removeLane (hd : L ≠ d) (tries : Nat) :
    (removeLane d tries).Only (Elsewhere L) := by
  induction tries with
  | zero => trivial
  | succ tries ih =>
    refine ⟨hd, fun b => ?_⟩
    cases b with
    | error why => exact ih
    | ok removed => trivial

/-- A process's own thread is about its own lane. -/
theorem only_exercise {e : Exercise} (hd : L ≠ e.lane) (hdot : L.head? ≠ some '.') (style : Style) :
    (e.exercise style).Only (Elsewhere L) := by
  have hstaging : L ≠ '.' :: e.lane := fun heq => hdot (heq ▸ rfl)
  refine Prog.Only.bind ⟨hstaging, fun _ => ⟨hstaging, fun b => ?_⟩⟩ fun dropped => ?_
  · cases b with
    | error why => trivial
    | ok made =>
      have heach := Prog.Only.each
        (fun (p : Nat × Nat) => only_lay hstaging (itemName p.1 p.2)) places
      refine heach.bind fun laid => ⟨⟨hstaging, hd⟩, fun renamed => ?_⟩
      cases renamed <;> trivial
  · cases dropped with
    | none => trivial
    | some dropped =>
      refine Prog.Only.bind ⟨trivial, fun turns => only_settleIn hd e.shared turns⟩ fun processed =>
        ?_
      exact (only_removeLane hd 3).bind fun _ => trivial

end

private theorem lane_head (e : Exercise) : e.lane.head? ≠ some '.' := by
  unfold Exercise.lane
  cases hdigits : decimal e.tag with
  | nil => exact absurd hdigits (decimal_ne_nil _)
  | cons c digits =>
    intro hdot
    obtain rfl := Option.some.inj hdot
    exact absurd (decimal_isDigit (n := e.tag) (by rw [hdigits]; exact List.mem_cons_self))
      (by decide)

/-- Processes that share the lane of `e`, one style's: the lane is laid, the thread `owner` of its
own process is to settle it, and every other is an honest reader of any process, in any of its
rounds, or the own thread of a round about another lane. -/
structure Contest (e : Exercise) (style : Style) (reader : ι → Reader) (owner : ι)
    (c : Config ι PickupOp (List Processed) (State ι)) : Prop where
  staged : Staged e.lane c.shared
  settles : c.prog owner = settle true e.lane
  others : ∀ i, i ≠ owner → c.prog i = ((reader i).run style.ordered false >>= fun _ => pure []) ∨
    ∃ other : Exercise, e.lane ≠ other.lane ∧ c.prog i = other.exercise style >>= fun _ => pure []

variable {e : Exercise} {style : Style}
  {c c' : Config ι PickupOp (List Processed) (State ι)} {processed : List Processed}

/-- What a thread ends with: the owner's ledger, and nothing left of what another took. -/
def Ended (e : Exercise) (style : Style) (owner i : ι) (processed : List Processed) (s : State ι) :
    Prop :=
  (i = owner → Settled e.lane processed s) ∧ (i ≠ owner → Idle e.lane style.ordered i s)

private theorem Contest.holds (h : Contest e style reader owner c) :
    (outline e.lane style.ordered reader owner).Holds (Ended e style owner) c := by
  have hkept : Kept e.lane style.ordered reader c.shared := h.staged.kept reader
  have hidle (i : ι) : Idle e.lane style.ordered i c.shared :=
    fun p hp howns => absurd howns (h.staged.not_locked hp)
  refine ⟨hkept, fun i => ?_⟩
  by_cases hi : i = owner
  · subst hi
    -- The judge.
    rw [h.settles]
    exact safe_settle.mono fun _ t _ hsettled => ⟨fun _ => hsettled, fun hno => absurd rfl hno⟩
  · rcases h.others i hi with hprog | ⟨other, hlane, hprog⟩
    · -- A reader, of any process.
      rw [hprog]
      apply Outline.Safe.bind (safe_run (hidle i) hkept) hkept
      intro _ t _ hended
      refine Outline.Safe.mono (safe_end calm_idle.stable hended.1) fun _ u _ hidle => ?_
      exact ⟨fun heq => absurd heq hi, fun _ => hidle⟩
    · rw [hprog]
      -- A process about another lane, which is nothing to this one.
      have honly :
        (other.exercise style >>= fun _ => (pure [] : Prog PickupOp (List Processed))).Only
          (Elsewhere e.lane) := (only_exercise hlane (lane_head e) style).bind fun _ => trivial
      apply (safe_elsewhere honly calm_idle (hidle i)).mono
      intro _ u _ hidle
      exact ⟨fun heq => absurd heq hi, fun _ => hidle⟩

/-- **A shared lane judged.** In any order of the steps of the processes that share the lane, where
its judge finds it drained, the ledger is complete and the round held just where the judge was not
late: where no record was created after it listed them, nor one written after it read it but with
the zero it read. -/
theorem settle_complete_iff (hcontest : Contest e style reader owner c) [DecidableEq ι]
    (hsteps : Steps exec (fun _ _ => none) c c') (hended : c'.prog owner = .pure processed)
    (hfound : (c'.shared.watch e.lane).found = true) :
    (Complete e.lane processed c'.shared ∧
      ∃ line, judge style places.length processed = .held line) ↔
        (c'.shared.watch e.lane).late = false := by
  have hholds := Outline.Holds.steps
    (fun _ _ _ _ _ _ hagain => absurd hagain.symm (Option.some_ne_none _)) hcontest.holds hsteps
  obtain ⟨hjudged, hdrained⟩ := (hholds.ended hended).1 rfl
  exact complete_iff_not_late hholds.inv (hdrained hfound) hjudged

/-! ### A late judge -/

/-- Where no name is a record's, the ledger reads nothing. -/
theorem each_readDone_eq (h : ∀ n ∈ names, splitOnce doneMark n = none) :
    Prog.each (readDone L) names = pure (names.map fun _ => none) := by
  induction names with
  | nil => rfl
  | cons n names ih =>
    have hone : readDone L n = pure none := by
      unfold readDone
      rw [h n List.mem_cons_self]
    change (readDone L n >>= fun b => Prog.each (readDone L) names >>= fun bs => pure (b :: bs)) = _
    rw [hone, ih fun m hm => h m (List.mem_cons_of_mem n hm)]
    rfl

/-- A reader that finds every lock taken, and an item of its own lane left, gives up after its last
rescan, and has changed nothing. -/
theorem runs_run_locked {r : Reader} {lanes : List Lane} (hshared : r.shared = true)
    (hlanes : ∀ d, d ∈ lanes ↔ (s.store d).isSome)
    (hlocked : ∀ d ∈ lanes, ∀ key < KEYS, (s.file d (keyLock key)).isSome)
    (hown : ∃ n, IsItem n ∧ (s.file r.own n).isSome) : (r.run true false).Runs exec i s () s := by
  -- A claim on a lock that is there is lost.
  have hclaim {d : Lane} (hd : d ∈ lanes) {key : Nat} (hkey : key < KEYS) :
      (r.claimKey d key).Runs exec i s () s := by
    obtain ⟨dir, hdir⟩ := Option.isSome_iff_exists.mp ((hlanes d).mp hd)
    have hmem : keyLock key ∈ dir := (mem_dir_iff hdir).mpr (hlocked d hd key hkey)
    refine Prog.runs_perform_bind.mpr ⟨.error [], s, ⟨s.store, ?_, rfl⟩, .pure⟩
    simp [FileOp.Does, hdir, hmem]
  have hforM {α : Type} {f : α → Prog PickupOp Unit} (l : List α)
      (hf : ∀ a ∈ l, (f a).Runs exec i s () s) : (l.forM f).Runs exec i s () s := by
    induction l with
    | nil => exact .pure
    | cons a l ih =>
      exact Prog.runs_bind.mpr ⟨(), s, hf a List.mem_cons_self,
        ih fun b hb => hf b (List.mem_cons_of_mem a hb)⟩
  have hscanned : r.lanes.Runs exec i s (lanes.filter fun name => name.head? ≠ some '.') s := by
    unfold Reader.lanes
    rw [if_pos hshared]
    exact Prog.runs_perform_bind.mpr ⟨.ok lanes, s, ⟨rfl, .inr ⟨lanes, rfl, hlanes⟩⟩, .pure⟩
  obtain ⟨n, hitem, hthere⟩ := hown
  obtain ⟨dir, hdir⟩ : ∃ dir, s.store r.own = some dir := by
    apply Option.ne_none_iff_exists'.mp
    intro hnone
    rw [State.file, Store.file, hnone] at hthere
    cases hthere
  have hlisted : (list r.own .plain).Runs exec i s (dir.keys.filter IsItem) s := by
    refine Prog.runs_perform_bind.mpr ⟨.ok dir.keys, s, ⟨s.store, ?_, rfl⟩, .pure⟩
    simp [FileOp.Does, hdir]
  have hleft : dir.keys.filter IsItem ≠ [] := by
    refine List.ne_nil_of_mem (List.mem_filter.mpr ⟨?_, decide_eq_true hitem⟩)
    rw [← AList.mem_keys, mem_dir_iff hdir]
    exact hthere
  have hscan (passes : Nat) : (r.scan true false passes).Runs exec i s () s := by
    induction passes with
    | zero => exact .pure
    | succ passes ih =>
      refine Prog.runs_bind.mpr ⟨_, s, hscanned, Prog.runs_bind.mpr ⟨(), s, ?_, ?_⟩⟩
      · -- Every claim of the pass is lost.
        refine hforM _ fun d hd => hforM _ fun key hkey => ?_
        exact hclaim (List.mem_filter.mp hd).1 (List.mem_range.mp hkey)
      · refine Prog.runs_bind.mpr ⟨_, s, hlisted, ?_⟩
        -- An item is left, so it scans again, as long as it may.
        rw [if_neg hleft]
        exact ih
  exact hscan SCANS

/-- Threads that can each run to their ends and change nothing, brought there. -/
theorem steps_unchanged [DecidableEq ι] (l : List ι) (hl : l.Nodup)
    {f : ι → Prog PickupOp (List Processed)} (h : ∀ i ∈ l, (f i).Runs exec i s [] s) :
    ∃ g, Steps exec (fun _ _ => none) ⟨s, f⟩ ⟨s, g⟩ ∧ ∀ i, i ∉ l → g i = f i := by
  induction l with
  | nil => exact ⟨f, .refl, fun _ _ => rfl⟩
  | cons i l ih =>
    rw [List.nodup_cons] at hl
    obtain ⟨g, hsteps, hstand⟩ := ih hl.2 fun j hj => h j (List.mem_cons_of_mem i hj)
    have hruns := h i List.mem_cons_self
    -- Its program is as it was, as only the others have moved.
    rw [← hstand i hl.1] at hruns
    refine ⟨_, hsteps.trans (hruns.steps (f := g) rfl), fun j hj => ?_⟩
    rw [Function.update_of_ne (List.ne_of_not_mem_cons hj)]
    exact hstand j (List.not_mem_of_not_mem_cons hj)

namespace Late

/-- A first process, whose lane is settled, and a second one. -/
def ours : Exercise := ⟨1, true, 1, 0⟩

def theirs : Exercise := ⟨2, true, 1, 0⟩

/-- The first process's own thread, its readers, and those of the second. -/
abbrev Thread : Type := Option (Bool × Fin READERS)

def readers : Thread → Reader
  | some (true, index) => ours.reader index
  | some (false, index) => theirs.reader index
  | none => ours.reader READERS

/-- A lane just laid. -/
def laidDir : Dir Char :=
  ⟨places.map fun p => ⟨item p, ['x']⟩, by
    rw [List.NodupKeys, List.keys, List.map_map]
    exact nodup_items⟩

/-- A lane drained, by the third reader of the second process. -/
def drainedDir : Dir Char :=
  ⟨((List.range KEYS).map fun key => ⟨keyLock key, []⟩) ++ places.zipIdx.map fun place =>
    ⟨done place.1 (theirs.reader 2).holder, doneContent place.2 false⟩, by
    rw [List.NodupKeys]
    decide⟩

/-- The store both processes start from. -/
def store : Store Lane Char := (Store.set Store.empty theirs.lane drainedDir).set ours.lane laidDir

def start : Config Thread PickupOp (List Processed) (State Thread) where
  shared := ⟨store, fun _ => 6, fun _ _ => none, fun _ => ⟨false, [], false⟩⟩
  prog
    | none => settle true ours.lane
    | some (true, index) => (ours.reader index).run true false >>= fun _ => pure []
    | some (false, index) => (theirs.reader index).run true false >>= fun _ => pure []

private theorem lane_ne : theirs.lane ≠ ours.lane := by decide

private theorem mem_laidDir {n : Text} : n ∈ laidDir ↔ ∃ p ∈ places, n = item p := by
  rw [AList.mem_keys]
  change n ∈ List.map Sigma.fst (places.map fun p => ⟨item p, ['x']⟩) ↔ _
  rw [List.map_map, List.mem_map]
  exact exists_congr fun p => and_congr_right fun _ => eq_comm

private theorem staged : Staged ours.lane start.shared := by
  have hdir : start.shared.store ours.lane = some laidDir :=
    Store.set_self (Store.empty.set theirs.lane drainedDir) ours.lane laidDir
  refine ⟨hdir ▸ rfl, fun n => ?_⟩
  rw [State.file, ← mem_dir_iff hdir]
  exact mem_laidDir

private theorem contest : Contest ours .sequential readers none start := by
  refine ⟨staged, rfl, fun i hi => .inl ?_⟩
  match i with
  | none => exact absurd rfl hi
  | some (true, index) => rfl
  | some (false, index) => rfl

/-- The first two readers of the second process. -/
abbrev first : Thread := some (false, 0)

abbrev second : Thread := some (false, 1)

private theorem exec_lock {i : Thread} {s : State Thread} {d : Lane} {dir : Dir Char} {name : Text}
    (hdir : s.store d = some dir) (hfree : name ∉ dir) :
    exec i (.file (.createNew d name) .lock) s (.ok ())
      (State.noted { s with store := s.store.set d (dir.insert name []) } i (.createNew d name)
        .lock
        (.ok ())) := by
  refine ⟨_, ?_, rfl⟩
  simp [FileOp.Does, hdir, hfree]

private theorem exec_locked {i : Thread} {s : State Thread} {d : Lane} {dir : Dir Char}
    {name : Text} (hdir : s.store d = some dir) (htaken : name ∈ dir) :
    exec i (.file (.createNew d name) .lock) s (.error []) s := by
  refine ⟨s.store, ?_, rfl⟩
  simp [FileOp.Does, hdir, htaken]

/-- The lane with the locks of both its keys taken. -/
def lockedDir : Dir Char := (laidDir.insert (keyLock 0) []).insert (keyLock 1) []

private theorem mem_lockedDir {n : Text} :
    n ∈ lockedDir ↔ n = keyLock 1 ∨ n = keyLock 0 ∨ ∃ p ∈ places, n = item p := by
  unfold lockedDir
  rw [AList.mem_insert, AList.mem_insert, mem_laidDir]

private theorem not_mem_laidDir (key : Nat) (h : key < KEYS) : keyLock key ∉ laidDir := by
  rw [mem_laidDir]
  rintro ⟨p, -, heq⟩
  have hplace : (key, 0) ∈ places := mem_places.mpr ⟨h, Nat.zero_lt_succ _⟩
  exact absurd heq.symm (item_ne_lockOf p hplace : item p ≠ lockOf true (key, 0))

/-- The two processes' lanes, whatever ours holds. -/
theorem isSome_store (dir : Dir Char) (d : Lane) :
    d ∈ [ours.lane, theirs.lane] ↔ ((store.set ours.lane dir) d).isSome := by
  by_cases hours : d = ours.lane
  · subst hours
    rw [Store.set_self]
    exact iff_of_true List.mem_cons_self rfl
  · rw [Store.set_of_ne hours, List.mem_cons, or_iff_right hours, List.mem_singleton]
    unfold store
    rw [Store.set_of_ne hours]
    by_cases htheirs : d = theirs.lane
    · subst htheirs
      rw [Store.set_self]
      exact iff_of_true rfl rfl
    · rw [Store.set_of_ne htheirs]
      exact iff_of_false htheirs nofun

/-- Each of the two takes a key of the lane, and stands before its first item. -/
theorem exists_claimed : ∃ c, Steps exec (fun _ _ => none) start c ∧
    c.shared.store = store.set ours.lane lockedDir ∧
    c.shared.lockedBy ours.lane (keyLock 0) = some first ∧
    c.shared.lockedBy ours.lane (keyLock 1) = some second ∧
    ∀ i, i ≠ first → i ≠ second → c.prog i = start.prog i := by
  have hone : keyLock 0 ∉ laidDir := not_mem_laidDir 0 (by decide)
  have htwo : keyLock 1 ∉ laidDir.insert (keyLock 0) [] := by
    rw [AList.mem_insert, not_or]
    exact ⟨by decide, not_mem_laidDir 1 (by decide)⟩
  have hours : start.shared.store ours.lane = some laidDir :=
    Store.set_self (Store.empty.set theirs.lane drainedDir) ours.lane laidDir
  have hsame : start.shared.store = store.set ours.lane laidDir := (Store.set_set _ _ _ _).symm
  -- The first lists the lanes and takes the first key.
  have hlanes : exec first .lanes start.shared (.ok [ours.lane, theirs.lane]) start.shared :=
    ⟨rfl, .inr ⟨_, rfl, hsame ▸ isSome_store laidDir⟩⟩
  have htakes := exec_lock (i := first) hours hone
  set s₁ := State.noted { start.shared with
    store := start.shared.store.set ours.lane (laidDir.insert (keyLock 0) []) } first
      (.createNew ours.lane (keyLock 0)) .lock (.ok ())
  obtain ⟨q, hq⟩ : ∃ q, (start.prog first).Leads exec first start.shared q s₁ :=
    ⟨_, .call hlanes (.call htakes .refl)⟩
  have hsteps₁ := hq.steps (fun _ _ => none) (f := start.prog) rfl
  -- The second finds it taken, and takes the other.
  have hours₁ : s₁.store ours.lane = some (laidDir.insert (keyLock 0) []) :=
    Store.set_self store ours.lane _
  have hlanes₁ : exec second .lanes s₁ (.ok [ours.lane, theirs.lane]) s₁ :=
    ⟨rfl, .inr ⟨_, rfl, isSome_store _⟩⟩
  have hlost := exec_locked (i := second) hours₁ (AList.mem_insert _ |>.mpr (.inl rfl))
  have htakes₁ := exec_lock (i := second) hours₁ htwo
  set s₂ := State.noted { s₁ with
    store := s₁.store.set ours.lane lockedDir } second
      (.createNew ours.lane (keyLock 1)) .lock (.ok ())
  obtain ⟨q', hq'⟩ : ∃ q', (start.prog second).Leads exec second s₁ q' s₂ :=
    ⟨_, .call hlanes₁ (.call hlost (.call htakes₁ .refl))⟩
  have hsteps₂ := hq'.steps (fun _ _ => none) (f := Function.update start.prog first q) rfl
  refine ⟨_, hsteps₁.trans hsteps₂, Store.set_set store _ _ _, rfl, rfl, fun i hfirst hsecond => ?_⟩
  exact (Function.update_of_ne hsecond ..).trans (Function.update_of_ne hfirst ..)

/-- The files of the two lanes once the keys of the one are taken. -/
theorem isSome_locked {s : State Thread} (hstore : s.store = store.set ours.lane lockedDir) :
    ∀ d ∈ [ours.lane, theirs.lane], ∀ key < KEYS, (s.file d (keyLock key)).isSome := by
  intro d hd key hkey
  rcases List.mem_cons.mp hd with rfl | hd
  · have hlane : s.store ours.lane = some lockedDir := by rw [hstore, Store.set_self]
    rw [State.file, ← mem_dir_iff hlane, mem_lockedDir]
    have hkeys : ∀ key < KEYS, key = 0 ∨ key = 1 := by decide
    rcases hkeys key hkey with rfl | rfl
    · exact .inr (.inl rfl)
    · exact .inl rfl
  · obtain rfl := List.mem_singleton.mp hd
    have hlane : s.store theirs.lane = some drainedDir := by
      rw [hstore, Store.set_of_ne lane_ne]
      unfold store
      rw [Store.set_of_ne lane_ne, Store.set_self]
    rw [State.file, ← mem_dir_iff hlane, AList.mem_keys]
    refine List.mem_map.mpr ⟨⟨keyLock key, []⟩, List.mem_append_left _ ?_, rfl⟩
    exact List.mem_map.mpr ⟨key, List.mem_range.mpr hkey, rfl⟩

/-- The judge looks at the records before any is created. -/
theorem runs_ledger_lockedDir {s : State Thread} (hlane : s.store ours.lane = some lockedDir) :
    ∃ t, (ledger ours.lane).Runs exec none s [] t ∧ t.store = s.store ∧
    t.lockedBy = s.lockedBy := by
  have hnames : ∀ n ∈ lockedDir.keys, splitOnce doneMark n = none := by
    intro n hn
    -- Locks and items are no records.
    rcases mem_lockedDir.mp (AList.mem_keys.mpr hn) with rfl | rfl | ⟨p, -, rfl⟩
    · exact splitOnce_lockOf true (1, 0) (by decide)
    · exact splitOnce_lockOf true (0, 0) (by decide)
    · exact splitOnce_item p
  set t := State.noted s none (.list ours.lane) .look (.ok lockedDir.keys)
  have hlooks : exec none (.file (.list ours.lane) .look) s (.ok lockedDir.keys) t := by
    refine ⟨s.store, ?_, rfl⟩
    simp [FileOp.Does, hlane]
  refine ⟨t, Prog.runs_perform_bind.mpr ⟨_, t, hlooks, ?_⟩, rfl, rfl⟩
  dsimp only
  rw [each_readDone_eq hnames]
  refine Prog.runs_pure.mpr ⟨?_, rfl⟩
  rw [List.filterMap_map]
  exact (List.filterMap_eq_nil_iff.mpr fun _ _ => rfl).symm

/-- What the judge has still to run that has read an empty ledger. -/
def lastLook : Prog PickupOp (List Processed) := do
  let left ← list ours.lane .find
  if true = false ∨ left = [] ∨ duplicated [] then pure [] else settleIn true ours.lane 0

/-- Both keys are the second process's, the first process's readers have given up, and its own
thread has read the ledger. -/
theorem exists_looked : ∃ c, Steps exec (fun _ _ => none) start c ∧ c.prog none = lastLook ∧
    Owns ours.lane true first (0, 0) c.shared ∧ Owns ours.lane true second (1, 0) c.shared := by
  obtain ⟨c, hclaimed, hstore, hfirst, hsecond, hothers⟩ := exists_claimed
  have hlane : c.shared.store ours.lane = some lockedDir := by
    rw [hstore, Store.set_self]
  have hlanes : ∀ d, d ∈ [ours.lane, theirs.lane] ↔ (c.shared.store d).isSome := by
    rw [hstore]
    exact isSome_store lockedDir
  -- The first process's readers find every lock taken, and an item left, each time they scan.
  have hleft : ∃ n, IsItem n ∧ (c.shared.file ours.lane n).isSome := by
    refine ⟨item (0, 0), isItem_itemName _ _, ?_⟩
    rw [State.file, ← mem_dir_iff hlane, mem_lockedDir]
    exact .inr (.inr ⟨(0, 0), by decide, rfl⟩)
  obtain ⟨g, hgave, hstand⟩ := steps_unchanged (s := c.shared) (f := c.prog)
    ((List.finRange READERS).map fun index => some (true, index)) (by decide) (by
      intro i hi
      obtain ⟨index, -, rfl⟩ := List.mem_map.mp hi
      rw [hothers _ (by simp) (by simp)]
      exact Prog.runs_bind.mpr
        ⟨(), c.shared, runs_run_locked rfl hlanes (isSome_locked hstore) hleft, .pure⟩)
  -- Their process's own thread, with one turn to wait, reads the ledger.
  obtain ⟨t, hledger, ht, hlocks⟩ := runs_ledger_lockedDir hlane
  have hpatience : exec none .patience c.shared 1 c.shared := rfl
  have howner : g none = settle true ours.lane := by
    rw [hstand none (by simp), hothers none (Option.some_ne_none _).symm
      (Option.some_ne_none _).symm]
    rfl
  have hlooked := (Prog.Leads.call hpatience
    (hledger.leads_bind (f := fun processed => list ours.lane .find >>= fun left =>
      if true = false ∨ left = [] ∨ duplicated processed then pure processed
      else settleIn true ours.lane 0))).steps (fun _ _ => none) (f := g) howner
  have hfiles (n : Text) : t.file ours.lane n = c.shared.file ours.lane n := by
    unfold State.file
    rw [ht]
  have hlocked := isSome_locked hstore ours.lane List.mem_cons_self
  refine ⟨_, hclaimed.trans (hgave.trans hlooked), Function.update_self none _ g, ?_, ?_⟩
  · exact ⟨by rw [hfiles]; exact hlocked 0 (by decide), by rw [hlocks]; exact hfirst⟩
  · exact ⟨by rw [hfiles]; exact hlocked 1 (by decide), by rw [hlocks]; exact hsecond⟩

/-- Nobody loses a lock while threads step. -/
theorem Owns.steps {i : Thread} {p : Nat × Nat} {c c' : Config Thread PickupOp _ (State Thread)}
    (hp : p ∈ places) (howns : Owns ours.lane true i p c.shared)
    (hholds : (outline ours.lane true readers none).Holds (Ended ours .sequential none) c)
    (hsteps : Steps exec (fun _ _ => none) c c') : Owns ours.lane true i p c'.shared := by
  obtain ⟨hpath, -⟩ := hholds.guaranteed
    (fun _ _ _ _ _ _ hagain => absurd hagain.symm (Option.some_ne_none _)) hsteps
  generalize c'.shared = s' at hpath
  induction hpath with
  | refl => exact howns
  | tail _ hmoved ih =>
    obtain ⟨j, -, -, x, hmove⟩ := hmoved
    exact ih.move hp hmove

/-- Where the second process's readers have the two keys, they come to their ends while the judge
stands, and leave no item. -/
theorem exists_drained {c : Config Thread PickupOp (List Processed) (State Thread)}
    (hsteps : Steps exec (fun _ _ => none) start c)
    (hfirst : Owns ours.lane true first (0, 0) c.shared)
    (hsecond : Owns ours.lane true second (1, 0) c.shared) :
    ∃ c', Steps exec (fun _ _ => none) c c' ∧ c'.prog none = c.prog none ∧
      Drained ours.lane c'.shared := by
  have hnone : ∀ i r p s, (outline ours.lane true readers none).inv s →
      Ended ours .sequential none i r s → none = some p →
        (outline ours.lane true readers none).Safe i (Ended ours .sequential none i) p s :=
    fun _ _ _ _ _ _ hagain => absurd hagain.symm (Option.some_ne_none _)
  have hholds := Outline.Holds.steps hnone contest.holds hsteps
  -- Each can go on to its end, as every call of it answers.
  obtain ⟨c', hended, hends, hstays⟩ :=
    exists_ended (@exec_total Thread) (fun _ _ => none) c [first, second]
  have hholds' := Outline.Holds.steps hnone hholds hended
  refine ⟨c', hended, hstays none nofun, fun p hp => ?_⟩
  -- The item's key is one of the two's, who have ended.
  have hidle {i : Thread} (hi : i ∈ [first, second]) (howns : Owns ours.lane true i p c'.shared) :
      c'.shared.file ours.lane (item p) = none := by
    obtain ⟨r, hr⟩ := hends i hi
    have hne : i ≠ none := by
      rintro rfl
      simp at hi
    exact (hholds'.ended hr).2 hne p hp howns
  have hkeys : ∀ key < KEYS, key = 0 ∨ key = 1 := by decide
  rcases hkeys p.1 (mem_places.mp hp).1 with hkey | hkey
  · -- Each still has its key, and leaves nothing of what it has.
    have howns := Owns.steps (by decide) hfirst hholds hended
    exact hidle List.mem_cons_self (owns_of_key rfl hkey howns)
  · have howns := Owns.steps (by decide) hsecond hholds hended
    exact hidle (List.mem_cons_of_mem _ List.mem_cons_self) (owns_of_key rfl hkey howns)

/-- The judge finds the lane drained, and goes by the ledger it read. -/
theorem exists_late : ∃ c, Steps exec (fun _ _ => none) start c ∧ c.prog none = .pure [] ∧
    (c.shared.watch ours.lane).found = true ∧ Drained ours.lane c.shared ∧
    Kept ours.lane true readers c.shared := by
  obtain ⟨c₀, hlooked, hstands, hfirst, hsecond⟩ := exists_looked
  -- Between its two looks the second process's readers process all there is.
  obtain ⟨c, hended, hstays, hgone⟩ := exists_drained hlooked hfirst hsecond
  have hdrained := hlooked.trans hended
  have hprog := hstays.trans hstands
  have hholds := Outline.Holds.steps
    (fun _ _ _ _ _ _ hagain => absurd hagain.symm (Option.some_ne_none _)) contest.holds hdrained
  obtain ⟨b, s', hfinds⟩ := exec_total none (.file (.list ours.lane) .find) c.shared
  obtain ⟨hstill, -, -, hfound, names, rfl, hleft⟩ := exec_find hfinds hholds.inv
  have hgone' : Drained ours.lane s' := fun p hp => (hstill.files _).trans (hgone p hp)
  have hnil : names.filter IsItem = [] :=
    decide_eq_true_iff.mp (hleft.symm.trans (hfound.mpr hgone'))
  have hlast : lastLook.Leads exec none c.shared (.pure []) s' := by
    -- Nothing is left, so it waits no longer.
    refine .call hfinds ?_
    change Prog.Leads exec none (if true = false ∨ names.filter IsItem = [] ∨ duplicated [] then
      pure [] else settleIn true ours.lane 0) s' (.pure []) s'
    rw [if_pos (.inr (.inl hnil))]
    exact .refl
  have hends := hlast.steps (fun _ _ => none) (f := c.prog) hprog
  exact ⟨_, hdrained.trans hends, Function.update_self none _ c.prog, hfound.mpr hgone', hgone',
    hholds.inv.still hstill⟩

/-- A drained lane stays drained while threads step. -/
theorem drained_steps {c c' : Config Thread PickupOp (List Processed) (State Thread)}
    (hsteps : Steps exec (fun _ _ => none) start c) (hgone : Drained ours.lane c.shared)
    (hmore : Steps exec (fun _ _ => none) c c') : Drained ours.lane c'.shared := by
  have hnone : ∀ i r p s, (outline ours.lane true readers none).inv s →
      Ended ours .sequential none i r s → none = some p →
        (outline ours.lane true readers none).Safe i (Ended ours .sequential none i) p s :=
    fun _ _ _ _ _ _ hagain => absurd hagain.symm (Option.some_ne_none _)
  obtain ⟨hpath, -⟩ := (Outline.Holds.steps hnone contest.holds hsteps).guaranteed hnone hmore
  generalize c'.shared = s' at hpath
  induction hpath with
  | refl => exact hgone
  | tail _ hmoved ih =>
    obtain ⟨j, -, -, x, hmove⟩ := hmoved
    intro p hp
    exact gone_move (ih p hp) hmove

/-- A ledger read with nobody else moving is in time. -/
theorem not_late_of_ledger {s t : State Thread} {processed : List Processed}
    (h : (ledger ours.lane).Runs exec none s processed t) : (t.watch ours.lane).late = false := by
  -- What reads a record leaves it as it was.
  have hread (n : Text) {s t : State Thread} {r : Option Processed}
      (h : (readDone ours.lane n).Runs exec none s r t) :
      (t.watch ours.lane).late = (s.watch ours.lane).late := by
    unfold readDone at h
    split at h
    · obtain ⟨-, rfl⟩ := Prog.runs_pure.mp h
      rfl
    · obtain ⟨b, u, did, hrest⟩ := Prog.runs_perform_bind.mp h
      obtain ⟨-, rfl⟩ := Prog.runs_pure.mp hrest
      obtain ⟨store, hdoes, rfl⟩ := exec_file did
      cases b <;>
        exact (congrArg Watch.late (watch_watched { s.watch ours.lane with
          seen := n :: (s.watch ours.lane).seen })).trans rfl
  have heach (names : List Text) : ∀ {s t : State Thread} {records : List (Option Processed)},
      (Prog.each (readDone ours.lane) names).Runs exec none s records t →
        (t.watch ours.lane).late = (s.watch ours.lane).late := by
    induction names with
    | nil =>
      intro s t records h
      obtain ⟨-, rfl⟩ := Prog.runs_pure.mp h
      rfl
    | cons n names ih =>
      intro s t records h
      obtain ⟨b, u, hone, hrest⟩ := Prog.runs_bind.mp h
      obtain ⟨bs, v, hothers, hpure⟩ := Prog.runs_bind.mp hrest
      obtain ⟨-, rfl⟩ := Prog.runs_pure.mp hpure
      exact (ih hothers).trans (hread n hone)
  obtain ⟨b, u, did, hrest⟩ := Prog.runs_perform_bind.mp h
  obtain ⟨store, hdoes, rfl⟩ := exec_file did
  -- Its listing begins it anew.
  cases b with
  | error why =>
    obtain ⟨-, rfl⟩ := Prog.runs_pure.mp hrest
    exact congrArg Watch.late (watch_watched _)
  | ok names =>
    obtain ⟨records, v, hrecords, hpure⟩ := Prog.runs_bind.mp hrest
    obtain ⟨-, rfl⟩ := Prog.runs_pure.mp hpure
    exact (heach _ hrecords).trans (congrArg Watch.late (watch_watched _))

/-- The second process's readers come to their ends before the judge looks, and it finds the lane
drained in time. -/
theorem exists_timely : ∃ c processed, Steps exec (fun _ _ => none) start c ∧
    c.prog none = .pure processed ∧ (c.shared.watch ours.lane).found = true ∧
    (c.shared.watch ours.lane).late = false := by
  obtain ⟨c₀, hclaimed, hstore, hfirst, hsecond, hothers⟩ := exists_claimed
  have hlocked := isSome_locked hstore ours.lane List.mem_cons_self
  obtain ⟨c, hended, hstays, hgone⟩ := exists_drained hclaimed
    ⟨hlocked 0 (by decide), hfirst⟩ ⟨hlocked 1 (by decide), hsecond⟩
  have hsteps := hclaimed.trans hended
  have hprog : c.prog none = settle true ours.lane := by
    rw [hstays, hothers none (Option.some_ne_none _).symm (Option.some_ne_none _).symm]
    rfl
  -- It has no turn to wait, and reads the ledger alone.
  obtain ⟨processed, t, hledger⟩ := Prog.exists_runs (i := none) (@exec_total Thread)
    (ledger ours.lane) c.shared
  have hpatience : exec none .patience c.shared 0 c.shared := rfl
  obtain ⟨c', hread, hlook, rfl⟩ : ∃ c', Steps exec (fun _ _ => none) c c' ∧
      c'.prog none = (list ours.lane .find >>= fun _ => pure processed) ∧ c'.shared = t :=
    ⟨_, (Prog.Leads.call hpatience (hledger.leads_bind (f := fun processed =>
      list ours.lane .find >>= fun _ => pure processed))).steps _ hprog,
      Function.update_self none _ c.prog, rfl⟩
  have hgone' := drained_steps hsteps hgone hread
  have hholds := Outline.Holds.steps
    (fun _ _ _ _ _ _ hagain => absurd hagain.symm (Option.some_ne_none _)) contest.holds
    (hsteps.trans hread)
  -- It then finds nothing left, and ends.
  obtain ⟨b, u, hfinds⟩ := exec_total none (.file (.list ours.lane) .find) c'.shared
  obtain ⟨hstill, hlate, -, hfound, names, rfl, -⟩ := exec_find hfinds hholds.inv
  have hlast : (list ours.lane .find >>= fun _ => (pure processed :
      Prog PickupOp (List Processed))).Leads exec none c'.shared (.pure processed) u :=
    .call hfinds .refl
  refine ⟨_, processed, (hsteps.trans hread).trans (hlast.steps (fun _ _ => none) hlook),
    Function.update_self none _ c'.prog, ?_, ?_⟩
  · exact hfound.mpr fun p hp => (hstill.files _).trans (hgone' p hp)
  · exact hlate.trans (not_late_of_ledger hledger)

/-- An empty ledger has no record of any item. -/
theorem not_complete_nil {L : Lane} {s : State Thread} : ¬Complete L [] s := by
  intro hcomplete
  obtain ⟨holder, o, -, hrecord⟩ := hcomplete (0, 0) (by decide)
  exact absurd ((hrecord _).mpr rfl).1 List.not_mem_nil

end Late

/-- A shared lane that two processes' readers drain: between the looks of its judge, which is then
late, and before it looks. -/
theorem settle_complete_iff_raced :
    (∃ c : Config Late.Thread PickupOp (List Processed) (State Late.Thread),
      Steps exec (fun _ _ => none) Late.start c ∧ c.prog none = .pure [] ∧
      (c.shared.watch Late.ours.lane).found = true ∧ ¬Complete Late.ours.lane [] c.shared ∧
      ((Complete Late.ours.lane [] c.shared ∧
      ∃ line, judge .sequential places.length [] = .held line) ↔
        (c.shared.watch Late.ours.lane).late = false)) ∧
    ∃ (c : Config Late.Thread PickupOp (List Processed) (State Late.Thread))
      (processed : List Processed),
      Steps exec (fun _ _ => none) Late.start c ∧ c.prog none = .pure processed ∧
      (c.shared.watch Late.ours.lane).found = true ∧
      (c.shared.watch Late.ours.lane).late = false ∧
      ((Complete Late.ours.lane processed c.shared ∧
      ∃ line, judge .sequential places.length processed = .held line) ↔
        (c.shared.watch Late.ours.lane).late = false) := by
  constructor
  · -- the window missed: all items found done, and none of them in the ledger read before
    obtain ⟨c, hsteps, hended, hfound, -⟩ := Late.exists_late
    exact ⟨c, hsteps, hended, hfound, Late.not_complete_nil,
      settle_complete_iff Late.contest hsteps hended hfound⟩
  · -- the window met: the ledger read after the last item was processed
    obtain ⟨c, processed, hsteps, hended, hfound, htimely⟩ := Late.exists_timely
    exact ⟨c, processed, hsteps, hended, hfound, htimely,
      settle_complete_iff Late.contest hsteps hended hfound⟩

namespace Late

/-- **The judge is late**: a run of two processes' readers over a lane, in which every item is
processed by one holder, the judge finds the lane drained, and it judges every item missed. -/
theorem settle_late : ∃ (c c' : Config Thread PickupOp (List Processed) (State Thread)),
    Contest ours .sequential readers none c ∧ Steps exec (fun _ _ => none) c c' ∧
      c'.prog none = .pure [] ∧ (c'.shared.watch ours.lane).found = true ∧
      (∀ p ∈ places, ∃! holder, (c'.shared.file ours.lane (done p holder)).isSome) ∧
      ¬Complete ours.lane [] c'.shared ∧
      judge .sequential places.length [] = .missed "6 of 6 items were never claimed".toList := by
  obtain ⟨c, hsteps, hended, hfound, hdrained, hkept⟩ := exists_late
  refine ⟨start, c, contest, hsteps, hended, hfound, fun p hp => ?_, not_complete_nil, ?_⟩
  · -- A drained lane has every item signed, by one holder.
    obtain ⟨holder, o, hdone⟩ := hkept.signed p hp (hdrained p hp)
    refine ⟨holder, Option.isSome_of_eq_some hdone, fun other hother => ?_⟩
    obtain ⟨content, hcontent⟩ := Option.isSome_iff_exists.mp hother
    exact holder_unique hkept hp hcontent hdone
  · have hsix : decimal 6 = ['6'] := by decide
    have hcount : places.length = 6 := by decide
    rw [hcount]
    simp [judge, holders, hsix]

end Late

end XmipEssentials.ExclusiveClaim
