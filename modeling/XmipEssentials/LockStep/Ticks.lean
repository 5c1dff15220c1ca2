import Mathlib.Algebra.Order.BigOperators.Group.Finset
import XmipEssentials.LockStep.Inboxes
import XmipEssentials.Relay

/-!
# A relay's round while nothing fails

What a round leaves of the inboxes where the relay runs alone (`WithinAlone`): a receive stage hands
on no more than its bound, and any other stage claims first and hands on no more than it claimed.

* `Arrive` — so many handoffs at most came, all at one stage.
* `Claim` — so many at least went of one inbox, and all of them where they were within the bound.
-/

namespace XmipEssentials

open Text Conc Files Inbox

/-! ### What comes and what goes -/

/-- How many handoffs wait in these inboxes. -/
def load (D : Finset Inbox) (s : Store Inbox UInt8) : Nat := ∑ d ∈ D, (waits s d).card

/-- At most so many handoffs came, all of them at the stage. -/
structure Arrive (stage : Option Stage) (count : Nat) (s s' : Store Inbox UInt8) : Prop where
  elsewhere : ∀ d : Inbox, some d.2 ≠ stage → waits s' d = waits s d
  loaded : ∀ D, load D s' ≤ load D s + count

/-- Handoffs of one inbox were claimed, up to a limit; so many read back. -/
structure Claim (dir : Inbox) (limit count : Nat) (s s' : Store Inbox UInt8) : Prop where
  elsewhere : ∀ d, d ≠ dir → waits s' d = waits s d
  left : count + (waits s' dir).card ≤ (waits s dir).card
  drained : (waits s dir).card ≤ limit → waits s' dir = ∅

variable {s s' s'' : Store Inbox UInt8} {stage : Option Stage} {count count' : Nat}

theorem load_congr {D : Finset Inbox} (h : ∀ d ∈ D, waits s' d = waits s d) :
    load D s' = load D s :=
  Finset.sum_congr rfl fun d hd => by rw [h d hd]

theorem card_le_load {D : Finset Inbox} {d : Inbox} (hd : d ∈ D) : (waits s d).card ≤ load D s :=
  Finset.single_le_sum (f := fun d => (waits s d).card) (fun _ _ => Nat.zero_le _) hd

/-- One inbox and the others. -/
theorem add_load_erase {D : Finset Inbox} {d : Inbox} (hd : d ∈ D) :
    (waits s d).card + load (D.erase d) s = load D s :=
  Finset.add_sum_erase D (fun d => (waits s d).card) hd

theorem Arrive.none : Arrive stage 0 s s := ⟨fun _ _ => rfl, fun _ => le_rfl⟩

theorem Arrive.trans (h : Arrive stage count s s') (h' : Arrive stage count' s' s'') :
    Arrive stage (count + count') s s'' := by
  refine ⟨fun d hd => (h'.elsewhere d hd).trans (h.elsewhere d hd), fun D => ?_⟩
  have hfirst := h.loaded D
  have hsecond := h'.loaded D
  omega

theorem Arrive.mono (h : Arrive stage count s s') (hle : count ≤ count') :
    Arrive stage count' s s' :=
  ⟨h.elsewhere, fun D => (h.loaded D).trans (Nat.add_le_add_left hle _)⟩

/-- One handoff put in an inbox. -/
theorem Arrive.one {dest : Inbox} {name : Text} {content : List UInt8}
    (h : ∀ d name', lies s' d name' = if d = dest ∧ name' = name then some content
      else lies s d name') :
    Arrive (some dest.2) 1 s s' := by
  -- one name of one inbox changed, so of every other inbox the same waits
  have hother (d : Inbox) (hne : d ≠ dest) : waits s' d = waits s d :=
    waits_congr fun name' => by rw [h, if_neg fun hc => hne hc.1]
  have hself : waits s' dest ⊆ insert name (waits s dest) := by
    intro name' hname'
    rw [mem_waits, h] at hname'
    rw [Finset.mem_insert, mem_waits]
    by_cases hsame : name' = name
    · exact .inl hsame
    · rw [if_neg fun hc => hsame hc.2] at hname'
      exact .inr hname'
  refine ⟨fun d hd => hother d ?_, fun D => ?_⟩
  · rintro rfl
    exact hd rfl
  · -- counted over any inboxes: the one it came to may be among them, or not
    by_cases hin : dest ∈ D
    · have hrest : load (D.erase dest) s' = load (D.erase dest) s :=
        load_congr fun d hd => hother d (Finset.ne_of_mem_erase hd)
      have hone := (Finset.card_le_card hself).trans (Finset.card_insert_le _ _)
      calc load D s' = (waits s' dest).card + load (D.erase dest) s' := (add_load_erase hin).symm
        _ ≤ (waits s dest).card + 1 + load (D.erase dest) s := by
          rw [hrest]; exact Nat.add_le_add_right hone _
        _ = (waits s dest).card + load (D.erase dest) s + 1 := by omega
        _ = load D s + 1 := by rw [add_load_erase hin]
    · rw [load_congr fun d hd => hother d fun heq => hin (heq ▸ hd)]
      exact Nat.le_succ _

/-- What a claim of names leaves. -/
theorem Claim.of_names {dir : Inbox} {limit : Nat} {names : List Text} (hnodup : names.Nodup)
    (hin : ∀ name ∈ names, name ∈ waits s dir)
    (hlength : names.length = min limit (waits s dir).card)
    (hcount : count ≤ names.length)
    (h : ∀ d name, lies s' d name = if d = dir ∧ name ∈ names then none else lies s d name) :
    Claim dir limit count s s' := by
  -- what was claimed is gone, all of it, and nothing else is
  have hself : waits s' dir = waits s dir \ names.toFinset := by
    ext name
    rw [mem_waits, h, Finset.mem_sdiff, mem_waits, List.mem_toFinset]
    by_cases hname : name ∈ names
    · rw [if_pos ⟨rfl, hname⟩]
      exact iff_of_false Bool.false_ne_true fun hc => hc.2 hname
    · rw [if_neg fun hc => hname hc.2]
      exact (and_iff_left hname).symm
  have hcard : (waits s' dir).card = (waits s dir).card - names.length := by
    rw [hself, Finset.card_sdiff_of_subset fun name hname => hin name (List.mem_toFinset.mp hname),
      List.toFinset_card_of_nodup hnodup]
  refine ⟨fun d hne => waits_congr fun name => by rw [h, if_neg fun hc => hne hc.1], ?_,
    fun hle => ?_⟩
  · -- the count claimed is what the limit lets through
    omega
  · -- all of it was claimed, so nothing is left
    rw [← Finset.card_eq_zero]
    omega

/-! ### The calls that leave the inboxes as they are -/

/-- A call that is none on the store. -/
def Still : ⦃β : Type⦄ → RelayOp β → Prop
  | _, .file .. => False
  | _, _ => True

variable {exec : Exec Unit RelayOp (Store Inbox UInt8)} (hexec : WithinAlone exec)

include hexec in
theorem ends_still {α : Type} {p : Prog RelayOp α} (hp : p.Only Still) :
    p.Ends exec () (fun _ t => t = s) s := by
  induction p generalizing s with
  | pure a => exact Prog.ends_pure.mpr rfl
  | call op next ih =>
    refine Prog.ends_call.mpr fun b t did => ?_
    have hsame : t = s := by
      have halone := hexec op s b t did
      cases op with
      | file op note => exact absurd hp.1 not_false
      | released => exact halone.2
      | _ => exact halone
    rw [hsame]
    exact ih b (hp.2 b)

include hexec in
/-- Each of the items judged, in the items' order, where judging leaves the inboxes as they are. -/
theorem ends_driveEach {α β : Type} {judge : α → Prog RelayOp β}
    (hstill : ∀ a, (judge a).Only Still) (l : List α) :
    (driveEach l judge).Ends exec () (fun bs t => t = s ∧ bs.length = l.length) s := by
  refine (Prog.Ends.each (f := judge) (fun behind bs t => t = s ∧ bs.length = behind.length)
    (fun behind bs a t h => ?_) l [] [] s ⟨rfl, rfl⟩).mono fun bs t h => h
  obtain ⟨rfl, hlength⟩ := h
  refine (ends_still hexec (hstill a)).mono fun b u hu => ⟨hu, ?_⟩
  rw [List.length_append, List.length_append, hlength]
  rfl

private theorem still_carried (transport : Text) (payload : List UInt8) :
    (carried transport payload).Only Still := by
  refine ⟨trivial, fun why => ?_⟩
  cases why with
  | some why => trivial
  | none =>
    refine ⟨trivial, fun back => ?_⟩
    cases back with
    | returned back =>
      change Prog.Only Still (if back = payload then _ else _)
      split <;> trivial
    | oneSided why => trivial
    | failed why => trivial

private theorem length_slice_le (pairs : List (Text × Contract)) (cursor count : Nat) :
    (slice pairs cursor (some count)).length ≤ count := by
  unfold slice
  rw [Option.map_some]
  dsimp only
  split
  · exact Nat.zero_le _
  · calc ((List.range (min count pairs.length)).filterMap _).length
        ≤ (List.range (min count pairs.length)).length := List.length_filterMap_le _ _
      _ ≤ count := by rw [List.length_range]; exact Nat.min_le_left _ _

namespace Relay

variable {κ S : Type} [Capability κ] [Snapshot S]

/-- A relay later in its run, set up as it was. -/
structure Same (r r' : Relay κ) : Prop where
  setup : r'.toSetup = r.toSetup
  name : r'.name = r.name
  stage : r'.stage = r.stage
  roster : r'.roster = r.roster

variable {r r' r'' : Relay κ}

omit [Capability κ] in
theorem Same.refl (r : Relay κ) : r.Same r := ⟨rfl, rfl, rfl, rfl⟩

omit [Capability κ] in
theorem Same.trans (h : r.Same r') (h' : r'.Same r'') : r.Same r'' :=
  ⟨h'.setup.trans h.setup, h'.name.trans h.name, h'.stage.trans h.stage, h'.roster.trans h.roster⟩

omit [Capability κ] in
theorem Same.inbox (h : r.Same r') : r'.inbox = r.inbox := by
  rw [Relay.inbox, h.name, h.stage, Relay.inbox]

omit [Capability κ] in
private theorem still_arrive (E : Estate) (r : Relay κ) (now : Int) (pair : Text × Contract) :
    (r.arrive E now pair).Only Still := by
  refine Prog.Only.bind ?_ fun arrival => ?_
  · unfold arrival
    split
    · trivial
    · exact still_carried _ _
  · cases arrival with
    | ok bytes => trivial
    | error outcome => trivial

omit [Capability κ] in
private theorem still_judge (E : Estate) (r : Relay κ) (now : Int) (handoff : Handoff) :
    (r.judge E now handoff).Only Still := by
  refine Prog.Only.bind ⟨trivial, fun _ => trivial⟩ fun _ => ?_
  dsimp only
  split
  · trivial
  · split
    · trivial
    · refine Prog.Only.bind ?_ fun sent => ?_
      · unfold sent
        split
        · exact (still_carried _ _).bind fun back => trivial
        · trivial
      · cases sent with
        | ok bytes => trivial
        | error outcome => trivial

include hexec

/-- **One handoff handed on** comes to an inbox of the next stage, or to none. -/
theorem ends_handOn (r : Relay κ) (handoff : Handoff) (now : Int) :
    (r.handOn handoff now).Ends exec () (fun res t => r.Same res.2 ∧ Arrive r.stage.next 1 s t)
      s := by
  have hnone (stage : Option Stage) : Arrive stage 1 s s := Arrive.none.mono (Nat.zero_le 1)
  unfold handOn
  cases hnext : r.stage.next with
  | none => exact Prog.ends_pure.mpr ⟨.refl r, hnone _⟩
  | some next =>
    dsimp only
    split
    · exact Prog.ends_pure.mpr ⟨.refl r, hnone _⟩
    · next dest _ =>
      refine (ends_deliver hexec handoff (r.sequence + 1)).bind fun delivered t h => ?_
      obtain ⟨rfl, hlies⟩ := h
      exact Prog.ends_pure.mpr ⟨⟨rfl, rfl, rfl, rfl⟩, Arrive.one hlies⟩

private theorem ends_handOnJudged (r : Relay κ) (now : Int) (one : Judged) :
    (r.handOnJudged now one).Ends exec () (fun res t => r.Same res.2 ∧ Arrive r.stage.next 1 s t)
      s := by
  have hnone : Arrive r.stage.next 1 s s := Arrive.none.mono (Nat.zero_le 1)
  unfold handOnJudged
  split
  · next handoff verdict identity _ _ =>
    -- whether to hand on is asked of the Subscription, which touches no inbox
    have hpicks : (r.picks handoff).Only Still := by
      unfold picks
      split
      · exact ⟨trivial, fun _ => trivial⟩
      · trivial
    refine (ends_still hexec hpicks).bind fun picked t ht => ?_
    obtain rfl : t = s := ht
    -- refused or not picked up, nothing arrives; handed on, one does
    have hhanded : (r.handOnPicked now handoff picked).Ends exec ()
        (fun res u => r.Same res.2 ∧ Arrive r.stage.next 1 t u) t := by
      rcases picked with why | ⟨_ | _⟩
      · exact Prog.ends_pure.mpr ⟨.refl r, hnone⟩
      · exact Prog.ends_pure.mpr ⟨.refl r, hnone⟩
      · exact ends_handOn hexec r handoff now
    refine hhanded.bind fun res u h => ?_
    obtain ⟨handed, r'⟩ := res
    cases handed with
    | ok _ => exact Prog.ends_pure.mpr h
    | error why => exact Prog.ends_pure.mpr h
  · exact Prog.ends_pure.mpr ⟨.refl r, hnone⟩

/-- What was judged concluded: no more is handed on than was judged. -/
theorem ends_conclude (now : Int) (judged : List Judged) (r : Relay κ) (snapshot : S) :
    (conclude now judged r snapshot).Ends exec ()
      (fun res t => r.Same res.1 ∧ Arrive r.stage.next judged.length s t) s := by
  induction judged generalizing r snapshot s with
  | nil => exact Prog.ends_pure.mpr ⟨.refl r, .none⟩
  | cons one rest ih =>
    -- one pair more, and one file more at most in the next stage's inbox
    refine (ends_handOnJudged hexec r now one).bind fun res t h => ?_
    obtain ⟨verdicts, r'⟩ := res
    obtain ⟨hsame, hfirst⟩ := h
    have htell :
      (verdicts.head?.forM fun v => (Prog.perform (.tell (.verdict v)) : Prog RelayOp PUnit)).Only
        Still := by
      cases verdicts.head? with
      | none => trivial
      | some v => exact ⟨trivial, fun _ => trivial⟩
    -- telling a verdict changes no inbox
    refine (ends_still hexec htell).bind fun _ u hu => ?_
    obtain rfl : u = t := hu
    refine (ih _ _).mono fun res v h => ?_
    have hfold : r'.Same (r'.foldVerdicts now verdicts snapshot).1 := ⟨rfl, rfl, rfl, rfl⟩
    refine ⟨(hsame.trans hfold).trans h.1, ?_⟩
    rw [List.length_cons, Nat.add_comm]
    exact hfirst.trans (hsame.stage ▸ h.2)

/-- **What a receive stage judges** is within its bound, and moves nothing that waits. -/
theorem ends_receive (E : Estate) (r : Relay κ) (now : Int) :
    (r.receive E now).Ends exec () (fun res t => r.Same res.2 ∧ t = s ∧ res.1.length ≤ r.perRound)
      s := by
  refine (ends_driveEach hexec (still_arrive E r now) _).bind fun judged t h => ?_
  obtain ⟨rfl, hlength⟩ := h
  refine Prog.ends_pure.mpr ⟨⟨rfl, rfl, rfl, rfl⟩, rfl, ?_⟩
  rw [hlength]
  exact length_slice_le _ _ _

omit [Capability κ] in
/-- **What any other stage judges** it has claimed. -/
theorem ends_drainInbox (E : Estate) (r : Relay κ) (now : Int) :
    (r.drainInbox E now).Ends exec ()
      (fun res t => r.Same res.2 ∧ Claim r.inbox r.perRound res.1.length s t) s := by
  refine (ends_claim hexec r.process r.perRound).bind fun claimed t h => ?_
  obtain ⟨names, hnodup, hin, hlength, hread, hlies⟩ := h
  have hcount : claimed.1.length ≤ names.length := by
    rw [hread]
    exact List.length_filterMap_le _ _
  refine (ends_driveEach hexec (still_judge E _ now) claimed.1).bind fun judged u h => ?_
  obtain ⟨rfl, hjudged⟩ := h
  refine Prog.ends_pure.mpr ⟨⟨rfl, rfl, rfl, rfl⟩, ?_⟩
  exact Claim.of_names hnodup hin hlength (hjudged ▸ hcount) hlies

omit [Capability κ] in
theorem ends_letGo (r : Relay κ) :
    r.letGo.Ends exec () (fun released t => released = [] ∧ t = s) s := by
  unfold letGo
  split
  · exact Prog.ends_call.mpr fun b t did => Prog.ends_pure.mpr (hexec .released s b t did)
  · exact Prog.ends_pure.mpr ⟨rfl, rfl⟩

omit [Capability κ] in
theorem ends_inboxCounts (r : Relay κ) : r.inboxCounts.Ends exec () (fun _ t => t = s) s := by
  unfold inboxCounts
  split
  · exact Prog.ends_pure.mpr rfl
  · have hwaiting : r.inbox.waiting.Ends exec () (fun _ t => t = s) s := by
      refine (ends_file hexec (fun b t hmay => hmay.list.1)).bind fun b t ht => ?_
      cases b with
      | ok names => exact Prog.ends_pure.mpr ht
      | error why => exact Prog.ends_pure.mpr ht
    exact hwaiting.bind fun waiting t ht => Prog.ends_pure.mpr ht

/-- **A round**: what the stage judged, and no more than that handed on. -/
theorem ends_tick (E : Estate) (r : Relay κ) (driven : Nat → Store Inbox UInt8 → Prop)
    (hdrive : ∀ now, ({ r with round := r.round + 1 }.drive E now).Ends exec ()
      (fun (res : List Judged × Relay κ) t => r.Same res.2 ∧ driven res.1.length t) s) :
    (r.tick E : Prog RelayOp (S × Relay κ)).Ends exec ()
      (fun res t => r.Same res.2 ∧ ∃ count u, driven count u ∧ Arrive r.stage.next count u t)
        s := by
  have hwork : (r.work E : Prog RelayOp (Ticked κ S)).Ends exec ()
      (fun res t => r.Same res.relay ∧ ∃ count u, driven count u ∧ Arrive r.stage.next count u t)
        s := by
    have hnow : (Prog.perform .now : Prog RelayOp Int).Only Still := ⟨trivial, fun _ => trivial⟩
    -- what a round changes of the inboxes is what driving does, then what concluding does
    refine (ends_still hexec hnow).bind fun now t ht => ?_
    obtain rfl : t = s := ht
    refine (hdrive now).bind fun res u h => ?_
    obtain ⟨judged, r'⟩ := res
    obtain ⟨hsame, hdriven⟩ := h
    refine (ends_conclude hexec now judged r' (Snapshot.new : S)).bind fun res v h => ?_
    obtain ⟨r'', snapshot⟩ := res
    obtain ⟨hsame', harrive⟩ := h
    refine (ends_letGo hexec r'').bind fun released w h => ?_
    obtain ⟨rfl, rfl⟩ := h
    have htake : (r''.take now (r''.ledger.close snapshot now)).Only Still := by
      unfold take
      split
      · exact ⟨trivial, fun _ => trivial⟩
      · trivial
    -- publishing and counting read and change nothing that waits
    refine (ends_still hexec htake).bind fun snapshot' x hx => ?_
    obtain rfl : x = w := hx
    refine (ends_inboxCounts hexec r'').bind fun inbox y hy => Prog.ends_pure.mpr ?_
    obtain rfl : y = x := hy
    exact ⟨hsame.trans hsame', judged.length, u, hdriven, hsame.stage ▸ harrive⟩
  exact hwork.bind fun ticked t h => Prog.ends_pure.mpr h

/-- **A receive stage's round** brings no more than its bound, all of it to process stages. -/
theorem ends_tick_receive (E : Estate) (r : Relay κ) (hstage : r.stage = .receive) :
    (r.tick E : Prog RelayOp (S × Relay κ)).Ends exec ()
      (fun res t => r.Same res.2 ∧ Arrive (some .process) r.perRound s t) s := by
  have hcount : r.Same { r with round := r.round + 1 } := ⟨rfl, rfl, rfl, rfl⟩
  refine (ends_tick hexec E r (fun count t => t = s ∧ count ≤ r.perRound) fun now => ?_).mono ?_
  · unfold drive
    rw [if_pos hstage]
    exact (ends_receive hexec E { r with round := r.round + 1 } now).mono fun res t h =>
      ⟨hcount.trans h.1, h.2⟩
  · rintro res t ⟨hsame, count, u, ⟨rfl, hle⟩, harrive⟩
    rw [hstage] at harrive
    exact ⟨hsame, harrive.mono hle⟩

/-- **Any other stage's round** hands on no more than it claimed. -/
theorem ends_tick_drain (E : Estate) (r : Relay κ) (hstage : r.stage ≠ .receive) :
    (r.tick E : Prog RelayOp (S × Relay κ)).Ends exec () (fun res t => r.Same res.2 ∧
      ∃ count u, Claim r.inbox r.perRound count s u ∧ Arrive r.stage.next count u t) s := by
  have hcount : r.Same { r with round := r.round + 1 } := ⟨rfl, rfl, rfl, rfl⟩
  refine ends_tick hexec E r (fun count t => Claim r.inbox r.perRound count s t) fun now => ?_
  unfold drive
  rw [if_neg hstage]
  exact (ends_drainInbox hexec E { r with round := r.round + 1 } now).mono fun res t h =>
    ⟨hcount.trans h.1, h.2⟩

end Relay

end XmipEssentials
