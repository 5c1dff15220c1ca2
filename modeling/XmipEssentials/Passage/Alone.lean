import XmipEssentials.Passage.Ticking

/-!
# A relay that runs while the others stand

What a delivery leaves, and how far a receive stage's round gets with the first pair of its slice,
where no other relay makes a call meanwhile: such runs show what the relays of a cluster can come
to.
-/

namespace XmipEssentials

open Text Conc Files Inbox

namespace Net

variable {κ S : Type} [Capability κ] [Snapshot S] {w : Ways} {s : Net} {i d : Inbox} {E : Estate}

/-- Every call answers, and the Subscriptions let nothing go. -/
theorem acts_total (w : Ways) : (acts w).Total := by
  intro i β op s
  obtain ⟨answer⟩ := op.nonempty
  cases op with
  | file op note =>
    obtain ⟨b, store, h⟩ := FileOp.exists_does op s.store
    exact ⟨b, _, store, .inl h, rfl⟩
  | route handoff => exact ⟨.ok true, s.push i (.routed handoff), rfl⟩
  | released => exact ⟨[], s, rfl, fun _ h => absurd h List.not_mem_nil⟩
  | tell note => exact ⟨(), s.note i (said note), rfl⟩
  | _ => exact ⟨answer, s, rfl⟩

/-! ### A delivery -/

/-- A directory with a file written under its temporary name, and renamed. -/
def filed (dir : Dir UInt8) (name : Text) (content : List UInt8) : Dir UInt8 :=
  (((dir.insert (name ++ '.' :: writing) []).insert (name ++ '.' :: writing) content).erase
    (name ++ '.' :: writing)).insert (name ++ '.' :: ready) content

private theorem ne_writing (name : Text) : name ++ '.' :: ready ≠ name ++ '.' :: writing := by
  intro heq
  have hsame := List.append_cancel_left heq
  revert hsame
  decide

/-- The first file of a directory is all there is in it. -/
theorem keys_filed (name : Text) (content : List UInt8) :
    (filed ∅ name content).keys = [name ++ '.' :: ready] := by
  simp [filed, AList.keys_insert, AList.keys_erase]

theorem lookup_filed (dir : Dir UInt8) (name : Text) (content : List UInt8) :
    (filed dir name content).lookup (name ++ '.' :: ready) = some content := AList.lookup_insert _

/-- The directory of an inbox, made where it is not there. -/
def made (s : Net) (d : Inbox) : Dir UInt8 := (s.store d).getD ∅

/-- What a delivery leaves. -/
def delivered (s : Net) (i d : Inbox) (h : Handoff) (sequence : Nat) : Net :=
  (s.leave (s.store.set d (filed (s.made d) (h.fileName sequence) h.encode))).push i
    (.given ⟨d, h, sequence⟩ ((s.made d).lookup (h.fileName sequence ++ '.' :: ready)).isSome)

theorem store_delivered (s : Net) (i d : Inbox) (h : Handoff) (sequence : Nat) :
    (s.delivered i d h sequence).store d = some (filed (s.made d) (h.fileName sequence) h.encode) :=
  Store.set_self s.store d _

/-- **A delivery** while no other call is made. -/
theorem runs_deliver (h : Handoff) (sequence : Nat) :
    (Inbox.deliver d h sequence).Runs (acts w) i s (.ok ()) (s.delivered i d h sequence) := by
  unfold Inbox.deliver delivered
  dsimp only
  generalize h.fileName sequence = name
  -- the file is written under another suffix, so no write touches the name it ends under
  have hne : name ++ '.' :: ready ≠ name ++ '.' :: writing := ne_writing name
  have hmake : acts w i (.file (.makeDir d) .plain) s (.ok ())
    (s.leave (s.store.set d (s.made d))) :=
    ⟨_, .inl ⟨rfl, rfl⟩, rfl⟩
  have hcreate : acts w i (.file (.create d (name ++ '.' :: writing)) .plain)
      (s.leave (s.store.set d (s.made d))) (.ok ())
      (s.leave (s.store.set d ((s.made d).insert (name ++ '.' :: writing) []))) := by
    refine ⟨_, .inl ?_, rfl⟩
    simp [FileOp.Does, leave, Store.set_set]
  have hwrite : acts w i (.file (.write d (name ++ '.' :: writing) h.encode) .plain)
      (s.leave (s.store.set d ((s.made d).insert (name ++ '.' :: writing) []))) (.ok ())
      (s.leave (s.store.set d
        (((s.made d).insert (name ++ '.' :: writing) []).insert (name ++ '.' :: writing)
          h.encode))) := by
    refine ⟨_, .inl ?_, rfl⟩
    simp [FileOp.Does, leave, Store.set_set]
  have hrename :
    acts w i (.file (.rename d (name ++ '.' :: writing) (name ++ '.' :: ready))
    (.deliver h sequence))
      (s.leave (s.store.set d
        (((s.made d).insert (name ++ '.' :: writing) []).insert (name ++ '.' :: writing) h.encode)))
        (.ok ())
      ((s.leave (s.store.set d (filed (s.made d) name h.encode))).push i
        (.given ⟨d, h, sequence⟩ ((s.made d).lookup (name ++ '.' :: ready)).isSome)) := by
    -- the rename is the one call noted: what it replaced is whatever stood under the name
    refine ⟨s.store.set d (filed (s.made d) name h.encode), .inl ?_, ?_⟩
    · simp [FileOp.Does, leave, filed, Store.set_set]
    · simp [witnessed, note, push, leave, AList.lookup_insert_ne hne]
  exact .call hmake (.call hcreate (.call hwrite (.call hrename .pure)))

/-! ### The first pair of a receive stage's round -/

variable {r : Relay κ} {pair : Text × Contract} {dest : Text}

/-- A receive stage that no fault strikes, and whose node goes on without Subscriptions. -/
structure Plain (r : Relay κ) (pair : Text × Contract) (dest : Text) : Prop where
  stage : r.stage = .receive
  faults : r.faults = .none
  rotation : r.rotation = none
  subscribing : r.subscribing = false
  slice : slice r.share r.cursor (some r.perRound) = [pair]
  target : r.roster.target r.name .process pair.1 pair.2 = some dest

/-- A pair arrives whole. -/
theorem runs_arrive (hplain : Plain r pair dest) (now : Int) :
    (r.arrive E now pair).Runs (acts w) i s
      ⟨r.verdict pair.1 pair.2 .delivered 0 now :: r.receiveVerdicts pair.1 pair.2 now,
        some (r.handoff pair.1 pair.2 r.round (pair.2.payload E.enc))⟩ s := by
  -- without a plan and without a rotation no fault strikes
  have hfault : r.fault pair.1 pair.2 r.round now = none := by
    unfold Relay.fault
    rw [hplain.faults, hplain.rotation]
    rfl
  -- what comes back is what was sent, so the pair is delivered
  have hwhole : (carried pair.1 (pair.2.payload E.enc)).Runs (acts w) i s
    (.ok (pair.2.payload E.enc)) s := by
    unfold carried
    rw [Prog.runs_perform_bind]
    refine ⟨none, s, rfl, ?_⟩
    rw [Prog.runs_perform_bind]
    refine ⟨.returned (pair.2.payload E.enc), s, rfl, ?_⟩
    dsimp only
    rw [if_pos rfl]
    exact .pure
  unfold Relay.arrive Relay.arrival
  dsimp only
  rw [hfault]
  exact Prog.runs_bind.mpr ⟨_, _, hwhole, .pure⟩

/-- Its handoff is delivered. -/
theorem passes_handOnJudged (hstage : r.stage = .receive) (hsubscribing : r.subscribing = false)
    {h : Handoff} (htarget : r.roster.target r.name .process h.transport h.contract = some dest)
    (now : Int) (verdict : Verdict) (identity : List Verdict) :
    (r.handOnJudged now ⟨verdict :: identity, some h⟩).Passes (acts w) i s
      (s.delivered i (dest, .process) h (r.sequence + 1)) := by
  have hpicked : (r.picks h).Runs (acts w) i s (.ok true) s := by
    unfold Relay.picks
    rw [hsubscribing]
    exact .pure
  have hhanded : (r.handOn h now).Passes (acts w) i s
    (s.delivered i (dest, .process) h (r.sequence + 1)) := by
    unfold Relay.handOn
    rw [hstage]
    dsimp only [Stage.next]
    rw [htarget]
    exact (runs_deliver h (r.sequence + 1)).passes.bind _
  unfold Relay.handOnJudged
  dsimp only
  exact hpicked.passes_bind (hhanded.bind _)

/-- What a receive stage judges is its one pair. -/
theorem runs_drive (hplain : Plain r pair dest) (now : Int) :
    (r.drive E now).Runs (acts w) i s
      ([⟨r.verdict pair.1 pair.2 .delivered 0 now :: r.receiveVerdicts pair.1 pair.2 now,
          some (r.handoff pair.1 pair.2 r.round (pair.2.payload E.enc))⟩],
        { r with cursor := (r.cursor + 1) % max r.share.length 1 }) s := by
  unfold Relay.drive
  rw [if_pos hplain.stage]
  unfold Relay.receive driveEach
  rw [hplain.slice]
  refine Prog.runs_bind.mpr ⟨_, s, ?_, .pure⟩
  exact Prog.runs_each_cons.mpr ⟨_, _, _, runs_arrive hplain now, Prog.runs_each_nil.mpr ⟨rfl, rfl⟩,
    rfl⟩

/-- **A receive stage's round**, alone, comes to deliver its pair. -/
theorem passes_tick (hplain : Plain r pair dest) :
    (r.tick E : Prog RelayOp (S × Relay κ)).Passes (acts w) i s
      (s.delivered i (dest, .process) (r.handoff pair.1 pair.2 (r.round + 1) (pair.2.payload E.enc))
      (r.sequence + 1)) := by
  have hnext : Plain { r with round := r.round + 1 } pair dest :=
    ⟨hplain.stage, hplain.faults, hplain.rotation, hplain.subscribing, hplain.slice, hplain.target⟩
  have hnow : (Prog.perform RelayOp.now).Runs (acts w) i s 0 s := .call rfl .pure
  unfold Relay.tick Relay.work
  dsimp only
  have hdrive := runs_drive (E := E) (w := w) (s := s) (i := i) hnext 0
  have hconclude := passes_handOnJudged (w := w) (s := s) (i := i)
    (r := { r with round := r.round + 1, cursor := (r.cursor + 1) % max r.share.length 1 })
    (h := r.handoff pair.1 pair.2 (r.round + 1) (pair.2.payload E.enc)) hplain.stage
      hplain.subscribing hplain.target 0
    (r.verdict pair.1 pair.2 .delivered 0 0)
      (({ r with round := r.round + 1 } : Relay κ).receiveVerdicts pair.1 pair.2 0)
  -- the hand-on is the last call; what follows it is not run here
  refine (hnow.passes_bind (hdrive.passes_bind ?_)).bind _
  dsimp only
  unfold Relay.conclude
  exact (hconclude.bind _).bind _

/-! ### The first handoff a stage claims -/

/-- What the claim of one handoff leaves, with what it reads back as said: the file is no longer
called `name`, under which it waited, but `mine`. -/
def drained (s : Net) (i d : Inbox) (dir : Dir UInt8) (name mine : Text) (content : List UInt8) :
    Net :=
  ((s.leave (s.store.set d ((dir.erase name).insert mine content))).push i (.claimed d name)).push i
    (.decoded name (Handoff.decode content))

/-- What it is claimed under is no name that waits, so it waits no more. -/
theorem waits_drained {dir : Dir UInt8} {name mine : Text} (content : List UInt8)
    (hdir : s.store d = some dir) (hmine : extension mine ≠ some ready) (d' : Inbox) :
    waits (s.drained i d dir name mine content).store d' =
      if d' = d then (waits s.store d).erase name else waits s.store d' := by
  have hstore : (s.drained i d dir name mine content).store =
      s.store.set d ((dir.erase name).insert mine content) := rfl
  by_cases hd : d' = d
  · -- in the inbox itself one ready name is gone, and the name it took is no ready one
    subst hd
    rw [if_pos rfl, hstore]
    ext file
    rw [mem_waits, Finset.mem_erase, mem_waits]
    unfold lies
    by_cases hready : extension file = some ready
    · -- the name it was claimed under is not `ready`
      have hne : file ≠ mine := fun heq => hmine (heq ▸ hready)
      rw [if_pos hready, if_pos hready, Store.file_set_self, AList.lookup_insert_ne hne]
      by_cases hname : file = name
      · rw [hname, AList.lookup_erase]
        exact iff_of_false Bool.false_ne_true fun hat => hat.1 rfl
      · rw [AList.lookup_erase_ne hname]
        have hfile : s.store.file d' file = dir.lookup file := by
          rw [Store.file, hdir, Option.bind_some]
        rw [hfile]
        exact (and_iff_right hname).symm
    · rw [if_neg hready, if_neg hready]
      exact iff_of_false Bool.false_ne_true fun hat => Bool.false_ne_true hat.2
  · -- any other inbox is as it was
    rw [if_neg hd, hstore]
    apply waits_congr
    intro file
    unfold lies Store.file
    rw [Store.set_of_ne hd]

/-- **A claim** of the one handoff that waits, alone, comes to say what it reads back as. -/
theorem passes_claim {dir : Dir UInt8} {name : Text} {content : List UInt8}
    (hdir : s.store d = some dir) (hkeys : dir.keys = [name]) (hready : extension name = some ready)
    (hcontent : dir.lookup name = some content) (process limit : Nat) :
    (Inbox.claim d process (limit + 1)).Passes (acts w) i s
      (s.drained i d dir name (withExtension name ("claimed-".toList ++ decimal process))
        content) := by
  have hlist : acts w i (.file (.list d) .plain) s (.ok [name]) s := by
    refine ⟨s.store, .inl ?_, rfl⟩
    simp only [FileOp.Does, hdir, hkeys, and_true]
    exact ⟨[name], List.Perm.refl _, rfl⟩
  -- the rename claims the file, and the read finds its content under the new name
  set mine := withExtension name ("claimed-".toList ++ decimal process)
  have hrename : acts w i (.file (.rename d name mine) .claim) s (.ok ())
      ((s.leave (s.store.set d ((dir.erase name).insert mine content))).push i
        (.claimed d name)) := by
    refine ⟨_, .inl ?_, rfl⟩
    simp [FileOp.Does, hdir, hcontent]
  have hread : acts w i (.file (.read d mine) .plain)
      ((s.leave (s.store.set d ((dir.erase name).insert mine content))).push i (.claimed d name))
      (.ok content)
      ((s.leave (s.store.set d ((dir.erase name).insert mine content))).push i
        (.claimed d name)) := by
    refine ⟨_, .inl ?_, rfl⟩
    simp [FileOp.Does, push, leave]
  have hsorted :
    (([name].filter fun name => extension name = some ready).insertionSort (· ≤ ·)).take
      (limit + 1) =
      [name] := by simp [hready]
  unfold Inbox.claim drained
  -- list, rename, read: the claim of the one file there is
  apply Prog.Runs.passes_bind (.call hlist .pure)
  dsimp only
  rw [hsorted]
  unfold Inbox.claimEach
  apply Prog.Runs.passes_bind (.call hrename .pure)
  apply Prog.Runs.passes_bind (.call hread .pure)
  exact Prog.Passes.bind ⟨_, .call (b := ()) rfl .refl⟩ _

/-- **A round of any other stage**, alone, comes to claim the one handoff that waits. -/
theorem passes_tick_claim (hstage : r.stage ≠ .receive) (hbound : 0 < r.perRound) {dir : Dir UInt8}
    {name : Text} {content : List UInt8} (hdir : s.store r.inbox = some dir)
    (hkeys : dir.keys = [name]) (hready : extension name = some ready)
    (hcontent : dir.lookup name = some content) :
    (r.tick E : Prog RelayOp (S × Relay κ)).Passes (acts w) i s
      (s.drained i r.inbox dir name (withExtension name ("claimed-".toList ++ decimal r.process))
        content) := by
  obtain ⟨limit, hlimit⟩ : ∃ limit, r.perRound = limit + 1 := ⟨r.perRound - 1, by omega⟩
  have hclaim := passes_claim (w := w) (i := i) hdir hkeys hready hcontent r.process limit
  have hnow : (Prog.perform RelayOp.now).Runs (acts w) i s 0 s := .call rfl .pure
  have hdrive : ({ r with round := r.round + 1 }.drive E 0).Passes (acts w) i s
      (s.drained i r.inbox dir name (withExtension name ("claimed-".toList ++ decimal r.process))
        content) := by
    unfold Relay.drive
    rw [if_neg hstage]
    unfold Relay.drainInbox
    dsimp only
    rw [hlimit]
    exact hclaim.bind _
  unfold Relay.tick Relay.work
  exact (hnow.passes_bind (hdrive.bind _)).bind _

end Net

end XmipEssentials
