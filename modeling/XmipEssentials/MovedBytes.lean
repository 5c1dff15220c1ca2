import XmipEssentials.Ceilings
import XmipEssentials.Documents
import XmipEssentials.Records
import Mathlib.Algebra.Order.BigOperators.Group.List
import Mathlib.Algebra.Order.Ring.Nat

/-!
# What heavy load counts

A load delivered adds the size asked for to the bytes moved, whatever the length of the payload that
came back. So over any run of rounds the count published is the length of what was delivered just
where each load delivered was as long as its size (`published_iff`).
-/

namespace XmipEssentials

open Text Conc

/-- One load of a round: its contract, the size asked for and what it came to. -/
structure Load where
  contract : Contract
  size : Nat
  line : Line

namespace Load

/-- The length of the payload, where the load was delivered: what a round trip reports. -/
def moved (E : Rig) (one : Load) : Nat :=
  if one.line.delivered then (HeavyLoad.load E one.contract one.size).length else 0

/-- What the exercise counts of the load. -/
def counted (one : Load) : Nat := if one.line.delivered then one.line.bytes else 0

end Load

namespace HeavyLoad

variable {S σ ι : Type} [Snapshot S] {exec : Exec ι RelayOp σ} {i : ι} {E : Rig} {D : Shown}

/-! ### One round's loads -/

/-- The loads of the places of a round, run one after another; the exercise's own fields but its
standings and its count stay as they are. -/
inductive Carried (E : Rig) (D : Shown) (exec : Exec ι RelayOp σ) (i : ι) :
    HeavyLoad → List Nat → σ → List Load → HeavyLoad → σ → Prop
  | nil {h : HeavyLoad} {s : σ} : Carried E D exec i h [] s [] h s
  | absent {h h' : HeavyLoad} {place : Nat} {places : List Nat} {s s' : σ} {loads : List Load}
      (hpair : h.pairAt place = none) (rest : Carried E D exec i h places s loads h' s') :
      Carried E D exec i h (place :: places) s loads h' s'
  | load {h h' : HeavyLoad} {place : Nat} {places : List Nat} {s t s' : σ} {loads : List Load}
      {transport : Text} {contract : Contract} {line : Line}
      (hpair : h.pairAt place = some (transport, contract))
      (hruns : (h.carry E D transport contract).Runs exec i s line t)
      (rest : Carried E D exec i (h.recorded transport contract line) places t loads h' s') :
      Carried E D exec i h (place :: places) s (⟨contract, h.sizeThisRound, line⟩ :: loads) h' s'

/-- **A run of a round's loads** is one load after another. -/
theorem runs_carryEach {places : List Nat} {h h' : HeavyLoad} {s s' : σ}
    (hruns : (carryEach E D places h).Runs exec i s h' s') :
    ∃ loads, Carried E D exec i h places s loads h' s' := by
  induction places generalizing h s with
  | nil =>
    obtain ⟨rfl, rfl⟩ := Prog.runs_pure.mp hruns
    exact ⟨[], .nil⟩
  | cons place places ih =>
    unfold carryEach at hruns
    cases hpair : h.pairAt place with
    | none =>
      -- A place past the end of the matrix is passed over.
      rw [hpair] at hruns
      obtain ⟨loads, hrest⟩ := ih hruns
      exact ⟨loads, .absent hpair hrest⟩
    | some pair =>
      rw [hpair] at hruns
      obtain ⟨line, t, hline, hrest⟩ := Prog.runs_bind.mp hruns
      obtain ⟨loads, hloads⟩ := ih hrest
      exact ⟨_, .load hpair hline hloads⟩

/-- What is marked delivered came back whole, and counts as the size asked for. -/
theorem judge_delivered {h : HeavyLoad} {transport : Text} {contract : Contract}
    {payload : List UInt8} {started ended : Int} {exchange : Exchange}
    (hdelivered : (h.judge E D transport contract payload started ended exchange).delivered =
      true) :
    exchange = .returned payload ∧
      (h.judge E D transport contract payload started ended exchange).bytes = h.sizeThisRound := by
  cases exchange with
  -- Only what came back the same is delivered: the other two answers never are.
  | oneSided why => exact absurd hdelivered Bool.false_ne_true
  | failed why => exact absurd hdelivered Bool.false_ne_true
  | returned back =>
    unfold judge at hdelivered ⊢
    dsimp only at hdelivered ⊢
    -- In turn: it differs, its bytes were dropped, it is small enough to parse again, or it is not.
    split_ifs at hdelivered ⊢ with hback hdropped hsmall
    · exact absurd hdelivered Bool.false_ne_true
    · exact absurd hdelivered Bool.false_ne_true
    · cases hvalid : E.validate contract back with
      | error why =>
        rw [hvalid] at hdelivered
        exact absurd hdelivered Bool.false_ne_true
      | ok held => exact ⟨congrArg Exchange.returned (not_not.mp hback), rfl⟩
    · exact ⟨congrArg Exchange.returned (not_not.mp hback), rfl⟩

private theorem yields_carry (E : Rig) (D : Shown) (h : HeavyLoad) (transport : Text)
    (contract : Contract) :
    (h.carry E D transport contract).Yields fun line => line.delivered = true →
    line.bytes = h.sizeThisRound := by
  unfold carry
  dsimp only
  cases (h.ceiling transport).filter (· < h.sizeThisRound) with
  | some limit => exact fun hdelivered => absurd hdelivered Bool.false_ne_true
  | none => exact fun started exchange ended hdelivered => (judge_delivered hdelivered).2

/-- **A round counts** what it counts of each of its loads. -/
theorem Carried.movedBytes_eq {h h' : HeavyLoad} {places : List Nat} {s s' : σ} {loads : List Load}
    (hcarried : Carried E D exec i h places s loads h' s') :
    h'.movedBytes = h.movedBytes + (loads.map Load.counted).sum := by
  induction hcarried with
  | nil => rfl
  | absent hpair rest ih => exact ih
  | @load h h' place places s t s' loads transport contract line hpair hruns rest ih =>
    rw [ih, List.map_cons, List.sum_cons, ← Nat.add_assoc]
    -- What is recorded of one load adds its line's bytes where it is delivered, and none else.
    congr 1
    change (if line.delivered then _ else _) = _ + if line.delivered then _ else _
    split_ifs <;> rfl

private theorem Carried.bytes_eq {h h' : HeavyLoad} {places : List Nat} {s s' : σ}
    {loads : List Load} (hcarried : Carried E D exec i h places s loads h' s') :
    ∀ one ∈ loads, one.line.delivered = true → one.line.bytes = one.size := by
  induction hcarried with
  | nil => exact fun _ hone => absurd hone List.not_mem_nil
  | absent hpair rest ih => exact ih
  | load hpair hruns rest ih =>
    exact List.forall_mem_cons.mpr ⟨(yields_carry _ _ _ _ _).of_runs hruns, ih⟩

/-! ### Any number of rounds -/

/-- One tick, and the loads it carried. -/
structure Ticked (E : Rig) (D : Shown) (exec : Exec ι RelayOp σ) (i : ι) (h : HeavyLoad) (s : σ)
    (more : List Load) (snapshot : S) (h' : HeavyLoad) (s' : σ) : Prop where
  runs : (h.tick E D).Runs exec i s (snapshot, h') s'
  loads : ∃ t after, Carried E D exec i h.next h.next.places t more after s' ∧
    h'.movedBytes = after.movedBytes
  published : ∃ now base, snapshot = Snapshot.recordCount ⟨h'.node, .bytes, h'.movedBytes, now, now,
    now⟩ base

/-- **Every tick** carries some loads. -/
theorem exists_ticked {h h' : HeavyLoad} {s s' : σ} {snapshot : S}
    (hruns : (h.tick E D).Runs exec i s (snapshot, h') s') :
    ∃ more, Ticked E D exec i h s more snapshot h' s' := by
  -- A tick reads the clock, carries the loads of its places and reports.
  obtain ⟨now, t, hnow, hrest⟩ := Prog.runs_perform_bind.mp hruns
  obtain ⟨after, u, hloads, hend⟩ := Prog.runs_bind.mp hrest
  obtain ⟨heq, rfl⟩ := Prog.runs_pure.mp hend
  obtain ⟨rfl, rfl⟩ := Prod.mk.inj heq
  obtain ⟨more, hcarried⟩ := runs_carryEach hloads
  exact ⟨more, hruns, ⟨t, after, hcarried, rfl⟩, ⟨now, _, rfl⟩⟩

/-- Any number of ticks of a new exercise, and the loads they carried. -/
inductive Driven (S : Type) [Snapshot S] (E : Rig) (D : Shown) (exec : Exec ι RelayOp σ) (i : ι) :
    HeavyLoad → σ → List Load → Prop
  | new {h : HeavyLoad} {s : σ} (hnew : h.movedBytes = 0) : Driven S E D exec i h s []
  | tick {h h' : HeavyLoad} {s s' : σ} {loads more : List Load} {snapshot : S}
      (before : Driven S E D exec i h s loads)
      (ticked : Ticked E D exec i h s more snapshot h' s') :
        Driven S E D exec i h' s' (loads ++ more)

/-- **What is counted over a run** is what is counted of its loads, of each delivered its size. -/
theorem Driven.movedBytes_eq {h : HeavyLoad} {s : σ} {loads : List Load}
    (hdriven : Driven S E D exec i h s loads) :
    h.movedBytes = (loads.map Load.counted).sum ∧
      ∀ one ∈ loads, one.line.delivered = true → one.line.bytes = one.size := by
  induction hdriven with
  | new hnew => exact ⟨hnew, fun _ hone => absurd hone List.not_mem_nil⟩
  | tick before ticked ih =>
    obtain ⟨t, after, hcarried, hmoved⟩ := ticked.loads
    refine ⟨?_, fun one hone => ?_⟩
    · rw [hmoved, hcarried.movedBytes_eq, List.map_append, List.sum_append, ← ih.1]
      rfl
    · exact (List.mem_append.mp hone).elim (ih.2 one) (hcarried.bytes_eq one)

end HeavyLoad

/-- Where each of some is no larger than another, the sums are the same just where each is. -/
theorem sum_eq_iff_of_le {α : Type} {f g : α → Nat} {l : List α} (h : ∀ a ∈ l, f a ≤ g a) :
    (l.map f).sum = (l.map g).sum ↔ ∀ a ∈ l, f a = g a := by
  induction l with
  | nil => exact iff_of_true rfl fun _ ha => absurd ha List.not_mem_nil
  | cons a l ih =>
    obtain ⟨hfirst, hrest⟩ := List.forall_mem_cons.mp h
    -- The rest is no larger on the left either, so one first smaller leaves the sums apart.
    have hsum : (l.map f).sum ≤ (l.map g).sum := List.sum_le_sum hrest
    rw [List.map_cons, List.map_cons, List.sum_cons, List.sum_cons, List.forall_mem_cons,
      ← ih hrest]
    omega

/-- No load is shorter than its size. -/
theorem HeavyLoad.size_le_load {E : Estate} {c : Codecs} (hc : c.Standard)
    (henc : E.enc = c.encoders) (contract : Contract) (size : Nat) :
    size ≤ (HeavyLoad.load E.rig contract size).length := by
  unfold HeavyLoad.load Rig.payload
  split_ifs with hsmall hzero
  · rw [hzero]
    exact Nat.zero_le _
  · change size ≤ (largePayload E.enc contract size).length
    rw [henc]
    exact le_length_largePayload hc contract size
  · exact (length_filler size).ge

/-- **The bytes published** after any number of rounds are those of what was delivered just where
each load delivered took exactly its size. -/
theorem published_iff {S σ ι : Type} [Snapshot S] {exec : Exec ι RelayOp σ} {i : ι} {E : Estate}
    {D : Shown} {c : Codecs} (hc : c.Standard) (henc : E.enc = c.encoders) {h h' : HeavyLoad}
    {s s' : σ} {loads more : List Load} {snapshot : S}
    (hdriven : HeavyLoad.Driven S E.rig D exec i h s loads)
    (hticked : HeavyLoad.Ticked E.rig D exec i h s more snapshot h' s') :
    (∃ now base, snapshot = Snapshot.recordCount ⟨h'.node, .bytes, h'.movedBytes, now, now, now⟩
      base) ∧
      (h'.movedBytes = ((loads ++ more).map (Load.moved E.rig)).sum ↔
        ∀ one ∈ loads ++ more, one.line.delivered = true →
        Takes E.enc one.contract one.size one.size) := by
  refine ⟨hticked.published, ?_⟩
  obtain ⟨hmoved, hsizes⟩ := (hdriven.tick hticked).movedBytes_eq
  -- What is counted of a load delivered is the size asked for, which no payload is below.
  have hcounted : ∀ one ∈ loads ++ more, one.counted = if one.line.delivered then one.size
    else 0 := by
    intro one hone
    unfold Load.counted
    split_ifs with hdelivered
    · exact hsizes one hone hdelivered
    · rfl
  have hle : ∀ one ∈ loads ++ more, one.counted ≤ one.moved E.rig := by
    intro one hone
    rw [hcounted one hone, Load.moved]
    split_ifs
    · exact HeavyLoad.size_le_load hc henc one.contract one.size
    · exact Nat.le_refl 0
  rw [hmoved, sum_eq_iff_of_le hle]
  -- Load by load, the two are the same just where one not delivered or one of its size is meant.
  refine forall_congr' fun one => forall_congr' fun hone => ?_
  rw [hcounted one hone, Load.moved, takes_iff]
  by_cases hdelivered : one.line.delivered = true
  · rw [if_pos hdelivered, if_pos hdelivered]
    exact ⟨fun htakes _ => htakes, fun htakes => htakes hdelivered⟩
  · rw [if_neg hdelivered, if_neg hdelivered]
    exact iff_of_true rfl fun h => absurd h hdelivered

/-! ### Transports that give back what they are handed -/

/-- Every transport gives back what it is handed. -/
def giving : Exec Unit RelayOp Unit := fun _ _ op _ answer _ =>
  match op, answer with
  | .exchange _ payload, back => back = .returned payload
  | _, _ => True

private theorem giving_total : giving.Total := by
  intro _ _ op s
  obtain ⟨answer⟩ := op.nonempty
  cases op with
  | exchange transport payload => exact ⟨.returned payload, (), rfl⟩
  | _ => exact ⟨answer, (), trivial⟩

/-- An estate whose contracts hold over anything, with the formats' own codecs. -/
def plainEstate : Estate := ⟨Codecs.plain.encoders, fun _ _ => .ok ()⟩

/-- A size exercise of one pair a round, from a place of the matrix on. -/
def onePair (bytes cursor : Nat) : HeavyLoad :=
  { HeavyLoad.new ['n'] [['t']] (fun _ => none) with bytes, cursor, perRound := some 1 }

private theorem delivered_giving {h : HeavyLoad} {transport : Text} (contract : Contract)
    (D : Shown) (hceiling : h.ceiling transport = none) (hstress : h.stress = none) :
    (h.carry plainEstate.rig D transport contract).Ends giving ()
    (fun line _ => line.delivered = true) () := by
  unfold HeavyLoad.carry
  dsimp only
  rw [hceiling]
  refine Prog.ends_call.mpr fun started _ _ => Prog.ends_call.mpr fun exchange _ hexchange =>
    Prog.ends_call.mpr fun ended _ _ => Prog.ends_pure.mpr ?_
  have hback : exchange = _ := hexchange
  unfold HeavyLoad.judge HeavyLoad.dropped
  rw [hback, hstress]
  dsimp only
  rw [if_neg (not_not.mpr rfl), if_neg Bool.false_ne_true]
  split_ifs <;> rfl

/-- A tick of one pair carries one load, and it is delivered. -/
theorem ticked_onePair {bytes cursor : Nat} {contract : Contract} (D : Shown)
    (hplaces : (onePair bytes cursor).next.places = [cursor])
    (hpair : (onePair bytes cursor).next.pairAt cursor = some (['t'], contract)) :
    ∃ (h' : HeavyLoad) (snapshot : Records) (line : Line), line.delivered = true ∧
      HeavyLoad.Ticked plainEstate.rig D giving () (onePair bytes cursor) ()
      [⟨contract, bytes, line⟩] snapshot h' () := by
  obtain ⟨⟨snapshot, h'⟩, ⟨⟩, hruns⟩ := Prog.exists_runs (i := ()) giving_total
    ((onePair bytes cursor).tick plainEstate.rig D : Prog RelayOp (Records × HeavyLoad)) ()
  obtain ⟨more, hticked⟩ := HeavyLoad.exists_ticked hruns
  obtain ⟨t, after, hcarried, -⟩ := hticked.loads
  -- The round has one place, so what it carried is the one load of its pair.
  rw [hplaces] at hcarried
  cases hcarried with
  | absent hnone rest => exact absurd (hpair.symm.trans hnone) (Option.some_ne_none _)
  | @load _ _ _ _ _ _ _ _ transport other line hsome hline rest =>
    obtain ⟨rfl, rfl⟩ := Prod.mk.inj (Option.some.inj (hsome.symm.trans hpair))
    cases rest
    exact ⟨h', snapshot, line, delivered_giving other D rfl rfl line _ hline, hticked⟩

/-- A load of plain bytes counts as what it moved. -/
theorem published_iff_bytes :
    ∃ (h' : HeavyLoad) (snapshot : Records) (line : Line), line.delivered = true ∧
    HeavyLoad.Ticked plainEstate.rig ⟨fun _ => [], fun _ _ _ _ => []⟩ giving () (onePair 64 0) ()
      [⟨.bytes, 64, line⟩] snapshot h' () ∧
    h'.movedBytes = ([(⟨.bytes, 64, line⟩ : Load)].map (Load.moved plainEstate.rig)).sum := by
  obtain ⟨h', snapshot, line, hdelivered, hticked⟩ :=
    ticked_onePair ⟨fun _ => [], fun _ _ _ _ => []⟩
    (show (onePair 64 0).next.places = [0] by decide) rfl
  refine ⟨h', snapshot, line, hdelivered, hticked, ?_⟩
  apply (published_iff Codecs.standard_plain rfl (.new rfl) hticked).2.mpr
  intro one hone _
  rw [List.mem_singleton.mp hone]
  rfl

/-- A text asked for at five bytes is delivered as ten, and counted as five. -/
theorem text_undercounted :
    ∃ (h' : HeavyLoad) (snapshot : Records) (line : Line), line.delivered = true ∧
    HeavyLoad.Ticked plainEstate.rig ⟨fun _ => [], fun _ _ _ _ => []⟩ giving () (onePair 5 1) ()
      [⟨.text, 5, line⟩] snapshot h' () ∧
    h'.movedBytes = 5 ∧ ([(⟨.text, 5, line⟩ : Load)].map (Load.moved plainEstate.rig)).sum =
      10 := by
  obtain ⟨h', snapshot, line, hdelivered, hticked⟩ :=
    ticked_onePair ⟨fun _ => [], fun _ _ _ _ => []⟩
    (show (onePair 5 1).next.places = [1] by decide) rfl
  refine ⟨h', snapshot, line, hdelivered, hticked, ?_, ?_⟩
  · obtain ⟨hmoved, hsizes⟩ := (HeavyLoad.Driven.new rfl).tick hticked |>.movedBytes_eq
    have hsize := hsizes _ (List.mem_singleton_self _) hdelivered
    rw [hmoved, List.nil_append, List.map_singleton, List.sum_singleton, Load.counted,
      if_pos hdelivered, hsize]
  · -- One unit of ten bytes is the fewest that reaches five.
    have hten : Takes plainEstate.enc .text 5 10 := ⟨1, by decide, by decide⟩
    rw [List.map_singleton, List.sum_singleton, Load.moved, if_pos hdelivered]
    exact (takes_iff.mp hten).symm

end XmipEssentials
