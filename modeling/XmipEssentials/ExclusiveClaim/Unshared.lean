import Mathlib.Data.Fintype.Option
import Mathlib.Data.Fintype.EquivFin
import XmipEssentials.ExclusiveClaim.Drained

/-!
# An unshared lane

One process lays its lane, races its readers over it with no other process there, and judges what
they signed. `Ran` is such a round, in any interleaving of its readers, and `ran_judged` says what
it comes to: held, with one record an item and none left, where the claim is intact (`race_honest`),
and contended by an injected breach where it is dropped and two readers race (`race_broken`).
-/

namespace XmipEssentials.ExclusiveClaim

open Text Conc Files

variable {ι : Type} {L : Lane} {ordered : Bool} {reader : ι → Reader} {i j : ι}
  {s s' : State ι} {p : Nat × Nat}

/-! ### The lane laid -/

/-- The lane holds its items and nothing else. -/
structure Staged (L : Lane) (s : State ι) : Prop where
  dir : (s.store L).isSome
  files : ∀ n, (s.file L n).isSome ↔ ∃ p ∈ places, n = item p

private theorem runs_lay {d : Lane} {it : Text} {b : Bool} (h : (lay d it).Runs exec i s b s')
    (hdir : (s.store d).isSome) :
    b = true ∧ (s'.store d).isSome ∧ ∀ n, (s'.file d n).isSome ↔ n = it ∨ (s.file d n).isSome := by
  obtain ⟨made, t, did, hrest⟩ := Prog.runs_perform_bind.mp h
  obtain ⟨store, hmay, rfl⟩ := exec_file did
  rcases hmay.create with ⟨-, -, hnone⟩ | ⟨rfl, hputs⟩
  · -- a file refused is refused for want of the directory, which is there
    rw [hnone not_false] at hdir
    cases hdir
  · obtain ⟨wrote, u, did', hend⟩ := Prog.runs_perform_bind.mp hrest
    obtain ⟨rfl, rfl⟩ := Prog.runs_pure.mp hend
    have hmade : ({ s with store } : State ι).file d it = some [] := hputs.self
    obtain ⟨rfl, v, hsets, -, -, rfl⟩ := exec_write did' (hmay.keeps_dir hdir) (hmade ▸ rfl)
    refine ⟨rfl, hsets.dir, fun n => ?_⟩
    -- the file laid is there; the write leaves every other name as it is
    by_cases hn : n = it
    · subst hn
      refine iff_of_true ?_ (.inl rfl)
      rw [hsets.self]
      rfl
    · have hother : ({ s with store } : State ι).file d n = s.file d n :=
        hputs.other fun hc => hn hc.2
      rw [hsets.other hn, or_iff_right hn]
      exact Eq.to_iff (congrArg (fun c : Option Text => c.isSome = true) hother)

private theorem runs_layAll {d : Lane} {l : List (Nat × Nat)} {laid : List Bool}
    (h : (Prog.each (fun p => lay d (itemName p.1 p.2)) l).Runs exec i s laid s')
    (hdir : (s.store d).isSome) :
    laid = List.replicate l.length true ∧ (s'.store d).isSome ∧
      ∀ n, (s'.file d n).isSome ↔ (∃ p ∈ l, n = item p) ∨ (s.file d n).isSome := by
  induction l generalizing s laid with
  | nil =>
    obtain ⟨rfl, rfl⟩ := Prog.runs_each_nil.mp h
    exact ⟨rfl, hdir, fun n => by simp⟩
  | cons p l ih =>
    obtain ⟨b, t, rest, hone, hrest, rfl⟩ := Prog.runs_each_cons.mp h
    obtain ⟨rfl, hdir', hfiles⟩ := runs_lay hone hdir
    obtain ⟨rfl, hdir'', hfiles'⟩ := ih hrest hdir'
    refine ⟨rfl, hdir'', fun n => ?_⟩
    rw [hfiles', hfiles]
    simp only [List.mem_cons, exists_eq_or_imp]
    exact or_left_comm.trans or_assoc.symm

theorem only_lay {d : Lane} (hd : L ≠ d) (it : Text) : (lay d it).Only (Elsewhere L) := by
  refine ⟨hd, fun b => ?_⟩
  cases b with
  | error why => trivial
  | ok made => exact ⟨hd, fun _ => trivial⟩

private theorem staging_ne (L : Lane) : L ≠ '.' :: L := by
  intro h
  have := congrArg List.length h
  simp at this

/-- **A lane laid** holds every item, and says so; it is laid where there is none yet. -/
theorem runs_stageLane {b : Option Nat} (h : (stageLane L).Runs exec i s b s') :
    (b = none → (s.store L).isSome) ∧
      ∀ dropped, b = some dropped → dropped = places.length ∧ Staged L s' := by
  -- what stood in the staging directory is removed
  obtain ⟨removed, t, hremoved, hrest⟩ := Prog.runs_perform_bind.mp h
  have helse : Elsewhere L (.removeDir ('.' :: L)) := staging_ne L
  have huntouched := exec_elsewhere helse hremoved
  have hclear : t.store ('.' :: L) = none := by
    simp only [exec] at hremoved
    split at hremoved
    · obtain ⟨-, rfl⟩ := hremoved
      exact Store.drop_self _ _
    · next hnone =>
      obtain ⟨-, rfl⟩ := hremoved
      exact hnone
  -- made anew, and so empty
  obtain ⟨made, u, did, hrest⟩ := Prog.runs_perform_bind.mp hrest
  have helse : Elsewhere L (.file (.makeDir ('.' :: L)) .plain) := staging_ne L
  have huntouched := huntouched.trans (exec_elsewhere helse did)
  obtain ⟨store, hmay, rfl⟩ := exec_file did
  obtain ⟨hfiles, hdir, hok⟩ := hmay.makeDir
  obtain rfl := hok not_false
  obtain ⟨laid, v, heach, hrest⟩ := Prog.runs_bind.mp hrest
  have huntouched := huntouched.trans (runs_elsewhere (L := L)
    (Prog.Only.each (fun p => only_lay (staging_ne L) _) places) heach)
  obtain ⟨rfl, hdir', hlaid⟩ := runs_layAll heach (hdir rfl)
  -- what is laid is a file an item, and nothing else
  have hnew : ∀ n, (v.file ('.' :: L) n).isSome ↔ ∃ p ∈ places, n = item p := by
    intro n
    have hempty : (State.noted { t with store } i (.makeDir ('.' :: L)) .plain (.ok ())).file
        ('.' :: L) n = none := by
      apply (hfiles _ _).trans
      rw [Store.file, hclear, Option.bind_none]
    rw [hlaid, hempty]
    exact or_iff_left Bool.false_ne_true
  obtain ⟨renamed, w, did, hend⟩ := Prog.runs_perform_bind.mp hrest
  simp only [exec] at did
  split at did
  · next dir hold =>
    -- the staging directory becomes the lane, where no lane of the name stands
    split at did
    · obtain ⟨rfl, rfl⟩ := did
      obtain ⟨hb, rfl⟩ := Prog.runs_pure.mp hend
      cases hb
      refine ⟨fun hnone => absurd hnone (Option.some_ne_none _),
        fun dropped hdropped => ⟨?_, ?_, fun n => ?_⟩⟩
      · rw [List.count_replicate_self] at hdropped
        exact (Option.some.inj hdropped).symm
      · dsimp only
        rw [Store.set_self]
        rfl
      · rw [← hnew n]
        unfold State.file Store.file
        dsimp only
        rw [Store.set_self, hold]
    · -- the rename is refused only where files of the lane stand already
      next hfull =>
      obtain ⟨⟨why, rfl⟩, rfl⟩ := did
      obtain ⟨rfl, -⟩ := Prog.runs_pure.mp hend
      refine ⟨fun _ => ?_, fun _ hsome => absurd hsome.symm (Option.some_ne_none _)⟩
      rw [← huntouched.store]
      by_contra hnone
      rw [Option.not_isSome_iff_eq_none] at hnone
      rw [hnone] at hfull
      exact hfull fun there hthere => absurd hthere (Option.not_mem_none there)
  · next hnone =>
    rw [hnone] at hdir'
    cases hdir'

/-- A lane just laid is as honest readers keep it. -/
theorem Staged.kept (h : Staged L s) (reader : ι → Reader) : Kept L ordered reader s := by
  -- an item's name holds no dot, so a lane just staged has no record and no lock
  have hplain : ∀ n, (s.file L n).isSome → splitOnce doneMark n = none := by
    intro n hn
    obtain ⟨p, -, rfl⟩ := (h.files n).mp hn
    exact splitOnce_none (dot_not_mem_itemName _ _)
  have hnodone : ∀ p holder, s.file L (done p holder) = none := by
    intro p holder
    by_contra hsome
    have hsplit := hplain _ (Option.isSome_iff_ne_none.mpr hsome)
    rw [splitOnce_doneName (dot_not_mem_itemName _ _)] at hsplit
    cases hsplit
  refine ⟨h.dir, fun n hn _ => (h.files n).mp hn, fun n it holder hn hsplit => ?_,
    fun p hp hlock => ?_, fun p hp hgone => ?_, fun p hp holder c hdone => ?_,
    fun _ p _ q _ _ _ holder holder' o o' hdone => ?_⟩
  · rw [hplain n hn] at hsplit
    cases hsplit
  · obtain ⟨q, -, heq⟩ := (h.files _).mp hlock
    exact absurd heq.symm (item_ne_lockOf _ hp)
  · have hthere := (h.files (item p)).mpr ⟨p, hp, rfl⟩
    rw [hgone] at hthere
    cases hthere
  · rw [hnodone] at hdone
    cases hdone
  · rw [hnodone] at hdone
    cases hdone

theorem Staged.not_locked (h : Staged L s) (hp : p ∈ places) : ¬Owns L ordered i p s := by
  intro howns
  obtain ⟨q, -, heq⟩ := (h.files _).mp howns.1
  exact absurd heq.symm (item_ne_lockOf _ hp)

private theorem Staged.unsigned (h : Staged L s) (p : Nat × Nat) : Unsigned L p s := by
  intro holder
  by_contra hsome
  obtain ⟨q, -, heq⟩ := (h.files _).mp (Option.isSome_iff_ne_none.mpr hsome)
  exact absurd heq.symm (item_ne_done _ _ _)

/-! ### The claim dropped -/

section

variable (L : Lane) (reader : ι → Reader)

/-- What holds of a lane nobody takes from. -/
structure Whole (s : State ι) : Prop where
  dir : (s.store L).isSome
  here : ∀ p ∈ places, (s.file L (item p)).isSome
  items : ∀ n, (s.file L n).isSome → IsItem n → ∃ p ∈ places, n = item p

/-- The outline of readers that claim nothing: each writes done records of its own and nothing
else. -/
def breach (hholder : Function.Injective fun i => (reader i).holder) :
    Outline ι PickupOp (State ι) where
  exec := exec
  inv := Whole L
  rely i s s' := ∀ p ∈ places, s'.file L (done p (reader i).holder) =
    s.file L (done p (reader i).holder)
  guar i s s' := ∀ n, (∀ p ∈ places, n ≠ done p (reader i).holder) → s'.file L n = s.file L n
  rely_refl _ _ _ _ := rfl
  rely_trans _ _ _ _ h h' p hp := (h' p hp).trans (h p hp)
  guar_rely i j s s' hij _ _ hguar p hp := by
    apply hguar _
    intro q hq heq
    exact hij (hholder (done_inj hp hq heq).2).symm

end

variable {hholder : Function.Injective fun i => (reader i).holder}

/-- One call without a claim: nothing but one's own records is changed. -/
theorem breach_call {α β : Type} {op : PickupOp β} {next : β → Prog PickupOp α}
    {post : α → State ι → Prop}
    (h : ∀ t, (∀ p ∈ places, t.file L (done p (reader i).holder) =
        s.file L (done p (reader i).holder)) → Whole L t → ∀ b t', exec i op t b t' →
      Whole L t' ∧ (∀ n, (∀ p ∈ places, n ≠ done p (reader i).holder) →
        t'.file L n = t.file L n) ∧ (breach L reader hholder).Safe i post (next b) t') :
    (breach L reader hholder).Safe i post (.call op next) s := h

/-- A step on a reader's own done record keeps the lane whole. -/
theorem Whole.sets {holder : Text} {c : Option Text} (h : Whole L s)
    (hsets : Sets L s (done p holder) c s') : Whole L s' where
  dir := hsets.dir
  here q hq := by
    rw [hsets.other (item_ne_done _ _ _)]
    exact h.here q hq
  items n hn hitem := by
    have hne : n ≠ done p holder := fun heq =>
      not_isItem_doneName (dot_not_mem_itemName _ _) _ (heq ▸ hitem)
    rw [hsets.other hne] at hn
    exact h.items n hn hitem

/-- **One item signed without a claim.** -/
theorem breach_process (hp : p ∈ places) {S : Nat × Nat → Prop}
    (hfree : s.file L (done p (reader i).holder) = none)
    (hsigned : ∀ q ∈ places, S q → ∃ o, s.file L (done q (reader i).holder) =
      some (doneContent o true))
    (hunsigned : ∀ q ∈ places, ¬S q → s.file L (done q (reader i).holder) = none) :
    (breach L reader hholder).Safe i (fun _ t => ∀ q ∈ places,
      (S q ∨ q = p → ∃ o, t.file L (done q (reader i).holder) = some (doneContent o true)) ∧
        (¬(S q ∨ q = p) → t.file L (done q (reader i).holder) = none))
      ((reader i).process L (item p) true) s := by
  apply breach_call
  intro t hrely hI b t' did
  obtain ⟨rfl, hread⟩ := exec_read did
  obtain ⟨c, hc⟩ := Option.isSome_iff_exists.mp (hI.here p hp)
  obtain rfl := (hread c).mpr hc
  refine ⟨hI, fun _ _ => rfl, ?_⟩
  apply breach_call
  intro u hrely' hI o u' did
  have helse : Elsewhere L (.tick (reader i).clock) := trivial
  -- reading the clock changes no file
  have hstill := (exec_elsewhere helse did).still
  refine ⟨⟨hstill.dir hI.dir, fun q hq => ?_, fun n hn => ?_⟩, fun n _ => hstill.files n, ?_⟩
  · rw [hstill.files]
    exact hI.here q hq
  · rw [hstill.files] at hn
    exact hI.items n hn
  apply breach_call
  intro v hrely'' hI b v' did
  -- no record of this holder's is written by another reader
  have hsame : ∀ q ∈ places, v.file L (done q (reader i).holder) =
    s.file L (done q (reader i).holder) := by
    intro q hq
    rw [hrely'' q hq, hstill.files, hrely' q hq, hrely q hq]
  rcases exec_createNew did hI.dir with ⟨-, -, hsome⟩ | ⟨rfl, -, w, hsets, -, -, rfl⟩
  · -- the record was free, so the create is not refused
    rw [hsame p hp, hfree] at hsome
    cases hsome
  set v' := State.noted w i (.createNew L (done p (reader i).holder)) .sign (.ok ())
  have hsets' : Sets L v (done p (reader i).holder) (some []) v' :=
    ⟨hsets.dir, hsets.files, hsets.clock⟩
  refine ⟨hI.sets hsets', fun n hn => hsets'.other (hn p hp), ?_⟩
  refine breach_call fun x hrely₃ hI b x' did => ?_
  have hthere : (x.file L (done p (reader i).holder)).isSome := by
    rw [hrely₃ p hp, hsets'.self]
    rfl
  obtain ⟨-, y, hsets₂, -, -, rfl⟩ := exec_write did hI.dir hthere
  have hsets₂' : Sets L x (done p (reader i).holder) (some (doneContent o true))
      (State.noted y i (.write L (done p (reader i).holder) (doneContent o true)) (.wrote o)
        b) := by
    rw [State.noted_write]
    split <;> exact ⟨hsets₂.dir, hsets₂.files, hsets₂.clock⟩
  refine ⟨hI.sets hsets₂', fun n hn => hsets₂'.other (hn p hp), ?_⟩
  intro z hrely₄ _ q hq
  rw [hrely₄ q hq]
  -- the record just signed; every other one is the one it was
  by_cases hqp : q = p
  · subst hqp
    exact ⟨fun _ => ⟨o, hsets₂'.self⟩, fun hnot => absurd (.inr rfl) hnot⟩
  · have hne : done q (reader i).holder ≠ done p (reader i).holder := fun heq =>
      hqp (done_inj hq hp heq).1
    rw [hsets₂'.other hne, hrely₃ q hq, hsets'.other hne, hsame q hq]
    exact ⟨fun hS => hsigned q hq (hS.resolve_right hqp),
      fun hnot => hunsigned q hq fun hS => hnot (.inl hS)⟩

/-- **A pass without claims** signs every item of the lane. -/
theorem breach_pass (hfree : ∀ p ∈ places, s.file L (done p (reader i).holder) = none) :
    (breach L reader hholder).Safe i (fun _ t => ∀ p ∈ places,
      ∃ o, t.file L (done p (reader i).holder) = some (doneContent o true))
      ((reader i).withoutClaiming L) s := by
  apply breach_call
  intro t hrely hI b t' did
  obtain ⟨rfl, names, rfl, hnodup, hnames⟩ := exec_list did hI.dir
  refine ⟨hI, fun _ _ => rfl, ?_⟩
  -- all items are listed, and only items
  have hlisted : ∀ p ∈ places, item p ∈ names.filter IsItem := by
    intro p hp
    rw [List.mem_filter, decide_eq_true_iff, hnames]
    exact ⟨hI.here p hp, isItem_itemName _ _⟩
  have hitems : ∀ n ∈ names.filter IsItem, ∃ p ∈ places, n = item p := by
    intro n hn
    rw [List.mem_filter, decide_eq_true_iff, hnames] at hn
    exact hI.items n hn.1 hn.2
  -- the loop's invariant: of the items behind it each is signed, of those ahead none
  let P (behind ahead : List Text) (t : State ι) : Prop :=
    behind ++ ahead = names.filter IsItem ∧ ∀ q ∈ places,
      (item q ∈ behind → ∃ o, t.file L (done q (reader i).holder) = some (doneContent o true)) ∧
        (item q ∉ behind → t.file L (done q (reader i).holder) = none)
  have hstart : P [] (names.filter IsItem) t' := by
    refine ⟨rfl, fun q hq => ⟨fun hmem => absurd hmem List.not_mem_nil, fun _ => ?_⟩⟩
    rw [hrely q hq]
    exact hfree q hq
  change (breach L reader hholder).Safe i _
    ((names.filter IsItem).forM fun it => (reader i).process L it true) t'
  refine (Outline.Safe.forM P ?_ ?_ _ [] t' hI hstart).mono ?_
  · rintro behind ahead u u' ⟨hsplit, hu⟩ hrely -
    refine ⟨hsplit, fun q hq => ?_⟩
    rw [hrely q hq]
    exact hu q hq
  · rintro behind n ahead u hI ⟨hsplit, hu⟩
    -- no item is listed twice, so the next one is unsigned
    obtain ⟨p, hp, rfl⟩ := hitems n (by rw [← hsplit]; simp)
    have hnot : item p ∉ behind := by
      have hdistinct : (behind ++ item p :: ahead).Nodup := by
        rw [hsplit]
        exact hnodup.filter _
      rw [List.nodup_append'] at hdistinct
      intro hmem
      exact hdistinct.2.2 hmem List.mem_cons_self
    refine (breach_process (S := fun q => item q ∈ behind) hp ((hu p hp).2 hnot)
      (fun q hq => (hu q hq).1) (fun q hq => (hu q hq).2)).mono fun _ v _ hv => ?_
    refine ⟨by rw [List.append_assoc]; exact hsplit, fun q hq => ?_⟩
    have hmem : item q ∈ behind ++ [item p] ↔ item q ∈ behind ∨ q = p := by
      rw [List.mem_append, List.mem_singleton]
      exact or_congr_right ⟨itemName_inj hq hp, fun heq => by rw [heq]⟩
    rw [hmem]
    exact hv q hq
  · rintro - u - ⟨hsplit, hu⟩ p hp
    -- every item is behind the loop at its end
    rw [List.append_nil] at hsplit
    apply (hu p hp).1
    rw [List.nil_append]
    exact hlisted p hp

/-! ### A round -/

namespace Exercise

/-- The readers of a round of `n`, the process itself standing after the last of them. -/
def readers (e : Exercise) {n : Nat} (i : Option (Fin n)) : Reader :=
  e.reader ((i.map Fin.val).getD n)

private theorem readers_holder_injective (e : Exercise) {n : Nat} :
    Function.Injective fun i : Option (Fin n) => (e.readers i).holder := by
  intro i j h
  have hindex : (i.map Fin.val).getD n = (j.map Fin.val).getD n := by
    apply decimal_injective
    have hcons := List.append_cancel_left h
    exact (List.cons.inj hcons).2
  cases i with
  | none =>
    cases j with
    | none => rfl
    | some j => exact absurd hindex (Nat.ne_of_gt j.isLt)
  | some i =>
    cases j with
    | none => exact absurd hindex (Nat.ne_of_lt i.isLt)
    | some j => exact congrArg some (Fin.ext hindex)

/-- A round of `n` readers over a lane of its own for one style: `dropped` items were laid, the
readers raced in any order until all had ended, at `joined`, and the judge then read `processed`. -/
def Ran (e : Exercise) (style : Style) {n : Nat} (dropped : Nat) (joined : State (Option (Fin n)))
    (processed : List Processed) : Prop :=
  ∃ start laid after, (stageLane e.lane).Runs exec none start (some dropped) laid ∧
    Steps exec (fun _ _ => none) (e.race style laid) ⟨joined, fun _ => .pure ()⟩ ∧
    (settle e.shared e.lane).Runs exec none joined processed after

variable {e : Exercise} {style : Style} {n dropped : Nat} {laid joined : State (Option (Fin n))}
  {processed : List Processed}

/-- **Honest readers drain their lane.** -/
theorem race_honest (hshared : e.shared = false) (hbroken : e.broken style = false)
    (hn : 0 < n) (hlaid : Staged e.lane laid)
    (hrace : Steps exec (fun _ _ => none) (e.race style laid) ⟨joined, fun _ => .pure ()⟩) :
    Kept e.lane style.ordered e.readers joined ∧ Drained e.lane joined := by
  have hstart : Staged e.lane (e.race style laid).shared := ⟨hlaid.dir, hlaid.files⟩
  have hkept : Kept e.lane style.ordered e.readers (e.race style laid).shared := hstart.kept _
  have hidle (i : Option (Fin n)) : Idle e.lane style.ordered i (e.race style laid).shared :=
    fun p hp howns => absurd howns (hstart.not_locked hp)
  let post (i : Option (Fin n)) (_ : Unit) (t : State (Option (Fin n))) : Prop :=
    Idle e.lane style.ordered i t ∧ (i ≠ none → AllLocked e.lane style.ordered t)
  have hholds : (outline e.lane style.ordered e.readers none).Holds post (e.race style laid) := by
    refine ⟨hkept, fun i => ?_⟩
    cases i with
    | none =>
      refine Outline.Safe.mono (safe_end calm_idle.stable (hidle none)) ?_
      intro _ t _ h
      exact ⟨h, fun hno => absurd rfl hno⟩
    | some index =>
      have hrun : (outline e.lane style.ordered e.readers none).Safe _ _ _ _ :=
        safe_run (hidle (some index)) hkept
      have hprog : (e.race style laid).prog (some index) =
          (e.readers (some index)).run style.ordered false := by
        rw [← hbroken]
        rfl
      rw [hprog]
      exact hrun.mono fun _ t _ h => ⟨h.1, fun _ => h.2 hshared rfl⟩
  have hended :=
    Outline.Holds.steps (fun _ _ _ _ _ _ hagain => absurd hagain.symm (Option.some_ne_none _))
      hholds hrace
  refine ⟨hended.inv, fun p hp => ?_⟩
  -- Every lock was taken, and whoever took one left nothing of it.
  have hpost (i : Option (Fin n)) : post i () joined := hended.ended rfl
  obtain ⟨i, hi⟩ := hended.inv.locks p hp ((hpost (some ⟨0, hn⟩)).2 (Option.some_ne_none _) p hp)
  exact (hpost i).1 p hp hi

/-- A broken reader makes one pass over its own lane, and looks at what is left. -/
theorem run_broken {r : Reader} (hshared : r.shared = false) (ordered : Bool) :
    r.run ordered true = r.withoutClaiming r.own >>= fun _ =>
      list r.own .plain >>= fun _ => pure () := by
  have hlanes : r.lanes = pure [r.own] := by
    unfold Reader.lanes
    rw [if_neg (by rw [hshared]; nofun)]
  have hend (left : List Text) :
      (if left = [] then pure () else r.scan ordered true 0 : Prog PickupOp Unit) = pure () :=
    ite_self _
  change (r.lanes >>= fun lanes => lanes.forM (r.pass ordered true) >>= fun _ =>
    list r.own .plain >>= fun left => if left = [] then pure () else r.scan ordered true 0) = _
  have hpass : [r.own].forM (r.pass ordered true) = r.withoutClaiming r.own >>= fun _ => pure () :=
    rfl
  rw [hlanes]
  simp only [hend, Prog.pure_bind]
  rw [hpass, bind_assoc]
  rfl

/-- **Readers that claim nothing sign every item each.** -/
theorem race_broken (hshared : e.shared = false) (hbroken : e.broken style = true)
    (hlaid : Staged e.lane laid)
    (hrace : Steps exec (fun _ _ => none) (e.race style laid) ⟨joined, fun _ => .pure ()⟩) :
    (joined.store e.lane).isSome ∧ ∀ index : Fin n, ∀ p ∈ places, ∃ o,
      joined.file e.lane (done p (e.reader index).holder) = some (doneContent o true) := by
  have hstart : Staged e.lane (e.race style laid).shared := ⟨hlaid.dir, hlaid.files⟩
  have hwhole : Whole e.lane (e.race style laid).shared :=
    ⟨hstart.dir, fun p hp => (hstart.files _).mpr ⟨p, hp, rfl⟩,
      fun n hn _ => (hstart.files n).mp hn⟩
  let signed (i : Option (Fin n)) (t : State (Option (Fin n))) : Prop :=
    ∀ p ∈ places, ∃ o, t.file e.lane (done p (e.readers i).holder) = some (doneContent o true)
  let post (i : Option (Fin n)) (_ : Unit) (t : State (Option (Fin n))) : Prop :=
    i ≠ none → signed i t
  have hholds : (breach e.lane e.readers e.readers_holder_injective).Holds post
      (e.race style laid) := by
    refine ⟨hwhole, fun i => ?_⟩
    cases i with
    | none => exact fun _ _ _ hno => absurd rfl hno
    | some index =>
      have hprog : (e.race style laid).prog (some index) =
          (e.readers (some index)).run style.ordered true := by
        rw [← hbroken]
        rfl
      rw [hprog, run_broken hshared]
      apply Outline.Safe.bind (breach_pass fun p _ => hstart.unsigned p _) hwhole
      intro _ t hI hsigned
      -- The last look changes nothing.
      apply breach_call
      intro u hrely hI b u' did
      obtain ⟨rfl, names, rfl, -⟩ := exec_list did hI.dir
      refine ⟨hI, fun _ _ => rfl, fun v hrely' _ _ p hp => ?_⟩
      rw [hrely' p hp, hrely p hp]
      exact hsigned p hp
  have hended :=
    Outline.Holds.steps (fun _ _ _ _ _ _ hagain => absurd hagain.symm (Option.some_ne_none _))
      hholds hrace
  have hpost (index : Fin n) : post (some index) () joined := hended.ended rfl
  exact ⟨hended.inv.dir, fun index => hpost index (Option.some_ne_none _)⟩

/-- **A round over a lane of its own.** Where the claim is intact, whatever the order of the
readers' steps, every item has one done record and none is left, the records of a key carry
increasing orders where the style keeps them, and the round is held. Where the claim is dropped and
two readers race, the round is contended, and said to be so by injection. -/
theorem ran_judged (hshared : e.shared = false) (hran : e.Ran style dropped joined processed) :
    (0 < n → e.broken style = false →
      (∀ p ∈ places, ∃! holder, (joined.file e.lane (done p holder)).isSome) ∧
        (∀ name, IsItem name → joined.file e.lane name = none) ∧
        (style.ordered = true → ∀ r ∈ processed, ∀ r' ∈ processed, r.key = r'.key →
          r.seq < r'.seq → r.order < r'.order) ∧
        ∃ line, judge style dropped processed = .held line) ∧
    (2 ≤ n → e.broken style = true →
      ∃ line, judge style dropped processed = .contended (line ++ injectedMark)) := by
  obtain ⟨start, laid, after, hstage, hrace, hsettle⟩ := hran
  obtain ⟨rfl, hlaid⟩ := (runs_stageLane hstage).2 _ rfl
  rw [hshared] at hsettle
  constructor
  · intro hn hbroken
    obtain ⟨hkept, hdrained⟩ := race_honest hshared hbroken hn hlaid hrace
    obtain ⟨names, hnames, rfl⟩ := runs_settle_unshared hsettle hkept.dir
    have hrecords : NamesRecords e.lane names joined := fun name _ => hnames name
    refine ⟨fun p hp => ?_, fun name hitem => ?_, fun hordered => ?_,
      judge_drained hkept hdrained hrecords⟩
    · obtain ⟨holder, o, hdone⟩ := hkept.signed p hp (hdrained p hp)
      refine ⟨holder, Option.isSome_iff_exists.mpr ⟨_, hdone⟩, fun other hother => ?_⟩
      obtain ⟨c, hc⟩ := Option.isSome_iff_exists.mp hother
      exact holder_unique hkept hp hc hdone
    · by_contra hthere
      obtain ⟨p, hp, rfl⟩ := hkept.items name (Option.isSome_iff_ne_none.mpr hthere) hitem
      exact hthere (hdrained p hp)
    · rw [hordered] at hkept
      exact inOrder_records hkept hdrained hrecords
  · intro hn hbroken
    obtain ⟨hdir, hsigned⟩ := race_broken hshared hbroken hlaid hrace
    obtain ⟨names, hnames, rfl⟩ := runs_settle_unshared hsettle hdir
    have hplace : (0, 0) ∈ places := mem_places.mpr ⟨by decide, by decide⟩
    -- Each of two readers signed the first item.
    have hrecord (index : Fin n) : ∃ o, (⟨item (0, 0), 0, 0, (e.reader index).holder, o, true⟩ :
        Processed) ∈ names.filterMap (recordOf e.lane joined) := by
      obtain ⟨o, hdone⟩ := hsigned index (0, 0) hplace
      refine ⟨o, List.mem_filterMap.mpr ⟨_, (hnames _).mpr (by rw [hdone]; rfl), ?_⟩⟩
      unfold recordOf
      rw [splitOnce_doneName (dot_not_mem_itemName _ _), hdone, Option.map_some, Option.getD_some]
      exact congrArg some (ofContent_done hplace _ o true)
    obtain ⟨o, ho⟩ := hrecord ⟨0, by omega⟩
    obtain ⟨o', ho'⟩ := hrecord ⟨1, by omega⟩
    refine judge_contended ho ho' rfl ?_ rfl
    intro heq
    have hsame := @readers_holder_injective e n (some ⟨0, by omega⟩) (some ⟨1, by omega⟩) heq
    simp at hsame

/-- A round can be run. -/
theorem exists_ran (e : Exercise) (style : Style) (n : Nat) :
    ∃ (joined : State (Option (Fin n))) (processed : List Processed),
      e.Ran style places.length joined processed := by
  let start : State (Option (Fin n)) :=
    ⟨Store.empty, fun _ => 0, fun _ _ => none, fun _ => ⟨false, [], false⟩⟩
  obtain ⟨b, laid, hstage⟩ := Prog.exists_runs (i := none) exec_total (stageLane e.lane) start
  obtain ⟨hnone, hsome⟩ := runs_stageLane hstage
  have hb : b ≠ none := fun h => absurd (hnone h) nofun
  obtain ⟨dropped, rfl⟩ := Option.ne_none_iff_exists'.mp hb
  obtain ⟨rfl, -⟩ := hsome dropped rfl
  obtain ⟨threads, -, hthreads⟩ := Finite.exists_univ_list (Option (Fin n))
  obtain ⟨⟨joined, prog⟩, hrace, hended, -⟩ :=
    exists_ended exec_total (fun _ _ => none) (e.race style laid) threads
  have hprog : prog = fun _ => .pure () := funext fun i => (hended i (hthreads i)).choose_spec
  obtain ⟨processed, after, hsettle⟩ :=
    Prog.exists_runs (i := none) exec_total (settle e.shared e.lane) joined
  exact ⟨joined, processed, start, laid, after, hstage, hprog ▸ hrace, hsettle⟩

theorem ran_judged_four_readers :
    (∃ (joined : State (Option (Fin 4))) (processed : List Processed),
      Ran ⟨7, false, 1, 0⟩ .sequential places.length joined processed ∧
        ∃ line, judge .sequential places.length processed = .held line) ∧
    ∃ (joined : State (Option (Fin 4))) (processed : List Processed),
      Ran ⟨7, false, 1, 100⟩ .parallel places.length joined processed ∧
        ∃ line, judge .parallel places.length processed = .contended (line ++ injectedMark) := by
  obtain ⟨joined, processed, hran⟩ := exists_ran ⟨7, false, 1, 0⟩ .sequential 4
  obtain ⟨joined', processed', hran'⟩ := exists_ran ⟨7, false, 1, 100⟩ .parallel 4
  have hheld := ((ran_judged rfl hran).1 (by decide) rfl).2.2.2
  have hcontended := (ran_judged rfl hran').2 (by decide) (by decide)
  exact ⟨⟨joined, processed, hran, hheld⟩, joined', processed', hran', hcontended⟩

end Exercise

end XmipEssentials.ExclusiveClaim
