import XmipEssentials.Passage.Relaying

/-!
# A relay's round among the others

Between rounds a relay's own counts are those of what it is seen to do (`Books`): its count is past
every handoff it gave over, its hops are those given over, and what it claimed it has read back. A
round keeps them so, whatever the other relays do meanwhile, and judges all it claimed
(`Net.safe_tick`).
-/

namespace XmipEssentials

open Text Conc Files Inbox

variable {κ : Type} [Capability κ]

/-! ### A relay's own counts -/

/-- A relay's own counts are those of what it is seen to do. -/
structure Books (w : Ways) (i : Inbox) (r : Relay κ) (l : List Event) : Prop where
  place : (r.name, r.stage) = i
  word : Handoff.Word i.1
  tokens : ∀ t ∈ r.transports, Handoff.Token t
  target : r.roster.target = w.target
  counted : ∀ g ∈ Event.gifts l, g.sequence ≤ r.sequence
  hops : ∀ d, r.hops.count i d = (Event.gifts l).countP (·.dest = d)
  settled : Event.decodes l = Event.claims l

/-- What a relay is between two pairs, and between two rounds where it has judged all it claimed. -/
structure Accounts (w : Ways) (i : Inbox) (r : Relay κ) (l : List Event) : Prop where
  books : Books w i r l
  judged : Event.judgedOf l = Event.found l
  pending : ¬w.resumes → Event.pending l = none

/-- What a relay hands on is its own, of the pair its first verdict says delivered. -/
def Forwards (i : Inbox) (one : Judged) : Prop :=
  ∀ h, one.forward = some h → Carries i h ∧ ∃ v rest, one.verdicts = v :: rest ∧
    v.outcome = .delivered ∧ v.transport = h.transport ∧ v.contract = h.contract

/-- A call that leaves everything as it is. -/
def Silent : ⦃β : Type⦄ → RelayOp β → Prop
  | _, .now | _, .refuses .. | _, .exchange .. | _, .done .. | _, .taken => True
  | _, _ => False

variable {w : Ways} {i : Inbox} {r r' : Relay κ} {l l' : List Event} {s : Net}

/-- The same relay with what its counts do not say changed. -/
theorem Books.same (h : Books w i r l) (hname : r'.name = r.name) (hstage : r'.stage = r.stage)
    (htransports : r'.transports = r.transports) (hroster : r'.roster = r.roster)
    (hsequence : r'.sequence = r.sequence)
    (hhops : r'.hops = r.hops) : Books w i r' l where
  place := by rw [hname, hstage, h.place]
  word := h.word
  tokens := by rw [htransports]; exact h.tokens
  target := by rw [hroster]; exact h.target
  counted := by rw [hsequence]; exact h.counted
  hops := by rw [hhops]; exact h.hops
  settled := h.settled

/-- The same relay, with more seen of it than is given over. -/
theorem Books.grows (h : Books w i r l) (hgifts : Event.gifts l' = Event.gifts l)
    (hsettled : Event.decodes l' = Event.claims l') : Books w i r l' where
  place := h.place
  word := h.word
  tokens := h.tokens
  target := h.target
  counted := by rw [hgifts]; exact h.counted
  hops := by rw [hgifts]; exact h.hops
  settled := hsettled

private theorem mem_slice {pairs : List (Text × Contract)} {cursor : Nat} {count : Option Nat}
    {pair : Text × Contract} (h : pair ∈ slice pairs cursor count) : pair ∈ pairs := by
  unfold slice at h
  split at h
  · exact h
  · split at h
    · exact absurd h List.not_mem_nil
    · obtain ⟨step, -, hat⟩ := List.mem_filterMap.mp h
      exact List.mem_of_getElem? hat

private theorem Relay.mem_share {pair : Text × Contract} (h : pair ∈ r.share) :
    pair.1 ∈ r.transports := by
  unfold share at h
  obtain ⟨one, hone, rfl⟩ := List.mem_map.mp h
  have hpair : one.1 ∈ allPairs r.transports :=
    List.mem_of_getElem? (List.mem_zipIdx_iff_getElem?.mp (List.mem_filter.mp hone).1)
  unfold allPairs at hpair
  obtain ⟨transport, hmem, hin⟩ := List.mem_flatMap.mp hpair
  obtain ⟨contract, -, hat⟩ := List.mem_map.mp hin
  rw [← hat]
  exact hmem

namespace Net

/-! ### Calls that are not seen -/

private theorem safe_silent {α : Type} {p : Prog RelayOp α} (hp : p.Only Silent) (h : s.own i = l) :
    (outline w).Safe i (fun _ t => t.own i = l) p s := by
  induction p generalizing s with
  | pure a => exact safe_pure (stable_own l) h
  | call op next ih =>
    apply safe_call (stable_own l) h
    intro t b t' hgood hown hacts
    have hsame : t' = t := by
      cases op with
      | now | refuses | exchange | done | taken => exact hacts
      | file | route | released | tell => exact absurd hp.1 not_false
    subst hsame
    exact ⟨hgood, Move.refl, fun _ => ih b (hp.2 b) hown⟩

private theorem silent_carried (transport : Text) (payload : List UInt8) :
    (carried transport payload).Only Silent := by
  refine ⟨trivial, fun why => ?_⟩
  cases why with
  | some why => trivial
  | none =>
    refine ⟨trivial, fun back => ?_⟩
    cases back with
    | returned back =>
      change Prog.Only Silent (if back = payload then _ else _)
      split <;> trivial
    | oneSided why => trivial
    | failed why => trivial

/-! ### What a round judges -/

/-- What a relay makes of a pair is its own. -/
theorem carries_handoff (h : Books w i r l) {transport : Text} (htoken : Handoff.Token transport)
    (contract : Contract) (round : Nat) (bytes : List UInt8) :
    Carries i (r.handoff transport contract round bytes) := by
  have hname : r.name = i.1 := congrArg Prod.fst h.place
  have hword : Handoff.Word r.name := hname ▸ h.word
  exact ⟨hname, hword, htoken⟩

private theorem forwards_none (verdicts : List Verdict) : Forwards i ⟨verdicts, none⟩ :=
  fun _ hsome => by cases hsome

/-- One pair arriving. -/
theorem safe_arrive (E : Estate) (now : Int) {pair : Text × Contract} (hbooks : Books w i r l)
    (hpair : pair.1 ∈ r.transports) (hgood : Good w s) (h : s.own i = l) :
    (outline w).Safe i (fun one t => t.own i = l ∧ Forwards i one) (r.arrive E now pair) s := by
  have hsilent : (r.arrival E now pair.1 pair.2).Only Silent := by
    unfold Relay.arrival
    split
    · trivial
    · exact silent_carried _ _
  apply (safe_silent hsilent h).bind hgood
  intro arrival t _ hown
  have hstable (one : Judged) : Stable w i fun t => t.own i = l ∧ Forwards i one :=
    stable_of_own fun l' => l' = l ∧ Forwards i one
  cases arrival with
  | error outcome => exact safe_pure (hstable _) ⟨hown, forwards_none _⟩
  | ok bytes =>
    refine safe_pure (hstable _) ⟨hown, fun handoff hsome => ?_⟩
    obtain rfl := Option.some.inj hsome
    exact ⟨carries_handoff hbooks (hbooks.tokens _ hpair) _ _ _, _, _, rfl, rfl, rfl, rfl⟩

/-- **What a receive stage judges.** -/
theorem safe_receive (E : Estate) (now : Int) (hbooks : Books w i r l) (hgood : Good w s)
    (h : s.own i = l) :
    (outline w).Safe i (fun res t => t.own i = l ∧ Books w i res.2 l ∧
      ∀ one ∈ res.1, Forwards i one)
      (r.receive E now) s := by
  -- the pairs of the slice are of the relay's own transports
  have hpairs (pair : Text × Contract) (hpair : pair ∈ slice r.share r.cursor (some r.perRound)) :
      pair.1 ∈ r.transports := Relay.mem_share (mem_slice hpair)
  refine (Outline.Safe.each
    (fun _ bs ahead t => t.own i = l ∧ (∀ pair ∈ ahead, pair.1 ∈ r.transports) ∧
      ∀ one ∈ bs, Forwards i one)
    (fun _ bs ahead t t' hat hrely _ => ⟨stable_own l t t' hrely hat.1, hat.2⟩)
    (fun behind bs pair ahead t hgood hat => ?_) (slice r.share r.cursor (some r.perRound)) [] [] s
      hgood
    ⟨h, hpairs, fun _ hone => absurd hone List.not_mem_nil⟩).bind hgood fun judged t _ hat => ?_
  · -- one pair more: it is judged, and forwards only where it was delivered
    obtain ⟨hown, hahead, hbs⟩ := hat
    refine (safe_arrive E now hbooks (hahead pair List.mem_cons_self) hgood hown).mono
      fun one t' _ hone => ?_
    refine ⟨hone.1, fun pair' hpair' => hahead pair' (List.mem_cons_of_mem _ hpair'),
      fun one' hone' => ?_⟩
    rcases List.mem_append.mp hone' with hone' | hone'
    · exact hbs one' hone'
    · obtain rfl := List.mem_singleton.mp hone'
      exact hone.2
  · refine safe_pure (stable_of_own fun l' => l' = l ∧ _) ⟨hat.1, ?_, hat.2.2⟩
    exact hbooks.same rfl rfl rfl rfl rfl rfl

/-- What a relay has done with so many of the handoffs it claimed judged, and so many still to
be. -/
structure Judging (l : List Event) (behind ahead : List Handoff) (l' : List Event) : Prop where
  gifts : Event.gifts l' = Event.gifts l
  settled : Event.decodes l' = Event.claims l'
  found : Event.found l' = (behind ++ ahead).reverse ++ Event.found l
  judged : Event.judgedOf l' = behind.reverse ++ Event.judgedOf l
  pending : Event.pending l' = Event.pending l

/-- One claimed handoff judged. -/
theorem safe_judge (E : Estate) (now : Int) {behind ahead : List Handoff} {handoff : Handoff}
    (hbooks : Books w i r l) (hjudged : Event.judgedOf l = Event.found l)
    (htoken : Handoff.Token handoff.transport) (h : Judging l behind (handoff :: ahead) (s.own i)) :
    (outline w).Safe i (fun one t => Judging l (behind ++ [handoff]) ahead (t.own i) ∧
      Forwards i one)
      (r.judge E now handoff) s := by
  refine safe_call (stable_of_own (Judging l behind (handoff :: ahead))) h
    fun t _ t' hgood hat hacts => ?_
  obtain rfl : t' = t.push i (.judged handoff) := hacts
  -- the handoff judged is the next of those found
  have hfound : Event.found (t.own i) = ahead.reverse ++ handoff :: Event.judgedOf (t.own i) := by
    rw [hat.found, hat.judged, hjudged, List.reverse_append, List.reverse_cons, List.append_assoc,
      List.append_assoc]
    rfl
  obtain ⟨hgood', hmove⟩ := hgood.judges hfound
  refine ⟨hgood', hmove, fun _ => ?_⟩
  -- it moves from those waiting to be judged to those judged
  have hnow : Judging l (behind ++ [handoff]) ahead ((t.push i (.judged handoff)).own i) := by
    rw [own_push_self]
    refine ⟨hat.gifts, hat.settled, ?_, ?_, hat.pending⟩
    · rw [List.append_assoc]
      exact hat.found
    · rw [List.reverse_append]
      exact congrArg (List.cons handoff) hat.judged
  have hstable (one : Judged) : Stable w i fun t =>
      Judging l (behind ++ [handoff]) ahead (t.own i) ∧ Forwards i one :=
    stable_of_own fun l' => Judging l (behind ++ [handoff]) ahead l' ∧ Forwards i one
  -- what is not delivered forwards nothing; what is, forwards to the pair's own inbox
  dsimp only
  split
  · exact safe_pure (hstable _) ⟨hnow, forwards_none _⟩
  · split
    · refine safe_pure (hstable _) ⟨hnow, fun onward hsome => ?_⟩
      dsimp only at hsome
      split at hsome
      · next hdelivered =>
        obtain rfl := Option.some.inj hsome
        exact ⟨carries_handoff hbooks htoken _ _ _, _, _, rfl, hdelivered, rfl, rfl⟩
      · cases hsome
    · -- the exchange is silent: it writes nothing into the books
      have hsilent : (r.sent handoff.transport handoff.bytes).Only Silent := by
        unfold Relay.sent
        split
        · exact (silent_carried _ _).bind fun back => trivial
        · trivial
      apply (safe_silent hsilent rfl).bind hgood'
      intro sent u _ hown
      rw [← hown] at hnow
      cases sent with
      | ok bytes => exact safe_pure (hstable _) ⟨hnow, forwards_none _⟩
      | error outcome => exact safe_pure (hstable _) ⟨hnow, forwards_none _⟩

/-- **What any other stage judges**: all it has claimed, each once. -/
theorem safe_drainInbox (E : Estate) (now : Int) (haccounts : Accounts w i r l) (hgood : Good w s)
    (h : s.own i = l) :
    (outline w).Safe i (fun res t => Accounts w i res.2 (t.own i) ∧ ∀ one ∈ res.1, Forwards i one)
      (r.drainInbox E now) s := by
  have hbooks := haccounts.books
  have hinbox : r.inbox = i := hbooks.place
  unfold Relay.drainInbox
  rw [hinbox]
  refine (safe_claim r.process r.perRound hbooks.settled h).bind hgood
    fun claimed t hgood hclaimed => ?_
  obtain ⟨claimed, unreadable⟩ := claimed
  set r' : Relay κ := { r with unreadable := r.unreadable + unreadable }
  have hbooks' : Books w i r' l := hbooks.same rfl rfl rfl rfl rfl rfl
  -- nothing claimed is judged yet when the loop begins
  have hbegun : Judging l [] claimed (t.own i) :=
    ⟨hclaimed.gifts, hclaimed.settled, hclaimed.found, hclaimed.judged, hclaimed.pending⟩
  refine (Outline.Safe.each
    (fun behind bs ahead t => Judging l behind ahead (t.own i) ∧
      (∀ h ∈ ahead, Handoff.Token h.transport) ∧
      ∀ one ∈ bs, Forwards i one)
    (fun behind bs ahead t t' hat hrely _ =>
      ⟨stable_of_own (Judging l behind ahead) t t' hrely hat.1, hat.2⟩)
    (fun behind bs handoff ahead t hgood hat => ?_) claimed [] [] t hgood
    ⟨hbegun, hclaimed.tokens, fun _ hone => absurd hone List.not_mem_nil⟩).bind hgood
      fun judged u _ hat => ?_
  · -- one handoff more, judged in the order they were found
    obtain ⟨hjudging, hahead, hbs⟩ := hat
    refine (safe_judge E now hbooks' haccounts.judged (hahead handoff List.mem_cons_self)
      hjudging).mono fun one t' _ hone => ⟨hone.1, fun h hh => hahead h (List.mem_cons_of_mem _ hh),
      fun one' hone' => ?_⟩
    rcases List.mem_append.mp hone' with hone' | hone'
    · exact hbs one' hone'
    · obtain rfl := List.mem_singleton.mp hone'
      exact hone.2
  · refine safe_pure (stable_of_own fun l' => Accounts w i r' l' ∧ _)
      ⟨⟨?_, ?_, fun hr => ?_⟩, hat.2.2⟩
    · exact hbooks'.grows hat.1.gifts hat.1.settled
    · rw [hat.1.judged, hat.1.found, haccounts.judged, List.append_nil]
    · rw [hat.1.pending, haccounts.pending hr]

/-! ### What a round hands on -/

/-- What a relay is with a pair handed on or not, before its verdict. -/
structure HandedOn (w : Ways) (i : Inbox) (handoff : Handoff) (l : List Event)
    (handed : Except Text Unit) (r : Relay κ) (l' : List Event) : Prop where
  books : Books w i r l'
  judged : Event.judgedOf l' = Event.found l'
  pending : ¬w.resumes → Event.pending l' = none ∨
    (handed = .ok () ∧ Event.pending l' = some handoff)

/-- One handoff handed on. -/
theorem safe_handOn (now : Int) {handoff : Handoff} (h : Accounts w i r l)
    (hcarries : Carries i handoff) (hgood : Good w s) (hown : s.own i = l) :
    (outline w).Safe i (fun res t => HandedOn w i handoff l res.1 res.2 (t.own i))
    (r.handOn handoff now) s := by
  have hname : r.name = i.1 := congrArg Prod.fst h.books.place
  have hstage : r.stage = i.2 := congrArg Prod.snd h.books.place
  have hstable (res : Except Text Unit × Relay κ) :
      Stable w i fun t => HandedOn w i handoff l res.1 res.2 (t.own i) :=
    stable_of_own (HandedOn w i handoff l res.1 res.2)
  -- nothing was handed on: the books are as they were, and what was pending still is
  have hnot (why : Text) : HandedOn w i handoff l (.error why) r (s.own i) := by
    rw [hown]
    exact ⟨h.books, h.judged, fun hr => .inl (h.pending hr)⟩
  unfold Relay.handOn
  cases hnext : r.stage.next with
  -- after the last stage there is no inbox to hand on to
  | none => exact safe_pure (hstable _) (hnot _)
  | some next =>
    dsimp only
    cases htarget : r.roster.target r.name next handoff.transport handoff.contract with
    | none => exact safe_pure (hstable _) (hnot _)
    | some dest =>
      dsimp only
      -- the inbox is the next stage's, at the roster's target
      have hbound : Bound w i handoff (dest, next) := by
        refine ⟨hstage ▸ hnext, ?_⟩
        rw [← h.books.target, ← hname]
        exact htarget
      -- the count goes up with every delivery, so no earlier gift has it
      have hfresh (g : Given) (hg : g ∈ Event.gifts l) : g.sequence ≠ r.sequence + 1 :=
        Nat.ne_of_lt (Nat.lt_succ_of_le (h.books.counted g hg))
      refine (safe_deliver hcarries hbound hfresh h.pending hown).bind hgood
        fun delivered t _ hdelivered => ?_
      cases delivered with
      -- the delivery failed: the count went up and nothing was given
      | error why =>
        refine safe_pure (hstable _) ?_
        rw [hdelivered]
        refine ⟨⟨h.books.place, h.books.word, h.books.tokens, h.books.target, fun g hg => ?_,
          h.books.hops, h.books.settled⟩, h.judged, fun hr => .inl (h.pending hr)⟩
        exact Nat.le_succ_of_le (h.books.counted g hg)
      -- it was given: one gift more, and one hop more to that inbox
      | ok _ =>
        refine safe_pure (hstable _) ?_
        rw [hdelivered]
        refine ⟨⟨h.books.place, h.books.word, h.books.tokens, h.books.target, fun g hg => ?_,
          fun d => ?_, h.books.settled⟩, h.judged, fun _ => .inr ⟨rfl, rfl⟩⟩
        · rcases List.mem_cons.mp hg with rfl | hg
          · exact le_rfl
          · exact Nat.le_succ_of_le (h.books.counted g hg)
        · change (r.hops.record (r.name, r.stage) (dest, next) now).count i d =
            (⟨(dest, next), handoff, r.sequence + 1⟩ :: Event.gifts l).countP _
          rw [h.books.place, Hops.count_record, List.countP_cons]
          by_cases hd : d = (dest, next)
          · rw [if_pos ⟨rfl, hd⟩, if_pos (decide_eq_true hd.symm), h.books.hops, hd]
          · rw [if_neg fun hat => hd hat.2, if_neg fun hat => hd (of_decide_eq_true hat).symm,
              h.books.hops, Nat.add_zero]

/-- What a relay is with a pair's verdicts known and none told: what was handed on for it, if
anything, is of the pair its first verdict says delivered. -/
structure Concluding (w : Ways) (i : Inbox) (verdicts : List Verdict) (r : Relay κ)
    (l : List Event) : Prop where
  books : Books w i r l
  judged : Event.judgedOf l = Event.found l
  pending : ¬w.resumes → ∀ h, Event.pending l = some h →
    ∃ v rest, verdicts = v :: rest ∧ v.outcome = .delivered ∧ v.transport = h.transport ∧
    v.contract = h.contract

/-- A pair handed on where a Subscription of the node does not hold it. -/
theorem safe_handOnJudged (now : Int) {one : Judged} (h : Accounts w i r l) (hone : Forwards i one)
    (hgood : Good w s) (hown : s.own i = l) :
    (outline w).Safe i (fun res t => Concluding w i res.1 res.2 (t.own i)) (r.handOnJudged now one)
      s := by
  have hstable (res : List Verdict × Relay κ) : Stable w i fun t =>
    Concluding w i res.1 res.2 (t.own i) :=
    stable_of_own (Concluding w i res.1 res.2)
  have hconcluding (verdicts : List Verdict) (l' : List Event) (haccounts : Accounts w i r l') :
      Concluding w i verdicts r l' :=
    ⟨haccounts.books, haccounts.judged,
      fun hr h hsome => by rw [haccounts.pending hr] at hsome; cases hsome⟩
  unfold Relay.handOnJudged
  split
  · next handoff verdict identity hforward hverdicts =>
    obtain ⟨hcarries, v, rest, hcons, hdelivered, htransport, hcontract⟩ := hone handoff hforward
    rw [hverdicts] at hcons
    obtain ⟨rfl, rfl⟩ := List.cons.inj hcons
    -- The pair is routed, which its Subscription may hold,
    have hpicks : (outline w).Safe i (fun _ t => Accounts w i r (t.own i)) (r.picks handoff) s := by
      unfold Relay.picks
      split
      · refine safe_perform (stable_of_own (Accounts w i r))
          (fun _ => stable_of_own (Accounts w i r)) (hown ▸ h) fun t b t' hgood hat hacts => ?_
        obtain rfl : t' = t.push i (.routed handoff) := hacts
        obtain ⟨hgood', hmove⟩ := hgood.routes hcarries
        refine ⟨hgood', hmove, ?_⟩
        rw [own_push_self]
        exact ⟨hat.books.grows rfl hat.books.settled, hat.judged, hat.pending⟩
      · exact safe_pure (stable_of_own (Accounts w i r)) (hown ▸ h)
    apply hpicks.bind hgood
    intro picked t hgood hat
    -- and handed on where none does.
    have hhanded :
      (outline w).Safe i (fun res u => HandedOn w i handoff (t.own i) res.1 res.2 (u.own i))
        (r.handOnPicked now handoff picked) t := by
      have hnot (handed : Except Text Unit) : HandedOn w i handoff (t.own i) handed r (t.own i) :=
        ⟨hat.books, hat.judged, fun hr => .inl (hat.pending hr)⟩
      have hstable (handed : Except Text Unit) :
          Stable w i fun u => HandedOn w i handoff (t.own i) handed r (u.own i) :=
        stable_of_own (HandedOn w i handoff (t.own i) handed r)
      rcases picked with why | ⟨_ | _⟩
      · exact safe_pure (hstable _) (hnot _)
      · exact safe_pure (hstable _) (hnot _)
      · exact safe_handOn now hat hcarries hgood rfl
    apply hhanded.bind hgood
    intro res u _ hhanded
    obtain ⟨handed, r'⟩ := res
    cases handed with
    | ok _ =>
      refine safe_pure (hstable _) ⟨hhanded.books, hhanded.judged, fun hr h hsome => ?_⟩
      rcases hhanded.pending hr with hnone | ⟨-, hat⟩
      · rw [hnone] at hsome
        cases hsome
      · rw [hat] at hsome
        obtain rfl := Option.some.inj hsome
        exact ⟨_, _, rfl, hdelivered, htransport, hcontract⟩
    | error why =>
      refine safe_pure (hstable _) ⟨hhanded.books, hhanded.judged, fun hr h hsome => ?_⟩
      rcases hhanded.pending hr with hnone | ⟨hok, -⟩
      · rw [hnone] at hsome
        cases hsome
      · cases hok
  · exact safe_pure (hstable _) (hown ▸ hconcluding _ l h)

/-- A pair's first verdict told: it is of what was handed on for the pair. -/
theorem safe_verdict {verdicts : List Verdict} (h : Concluding w i verdicts r (s.own i)) :
    (outline w).Safe i (fun _ t => Accounts w i r (t.own i))
      (verdicts.head?.forM fun v => Prog.perform (.tell (.verdict v))) s := by
  cases verdicts with
  | nil =>
    -- no verdict to tell: then nothing pending was delivered
    refine safe_pure (stable_of_own (Accounts w i r)) ⟨h.books, h.judged, fun hr => ?_⟩
    by_contra hsome
    obtain ⟨handoff, hpending⟩ := Option.ne_none_iff_exists'.mp hsome
    obtain ⟨v, rest, hcons, -⟩ := h.pending hr handoff hpending
    cases hcons
  | cons v rest =>
    -- the verdict told is that of what is pending, and settles it
    refine safe_perform (stable_of_own (Concluding w i (v :: rest) r))
      (fun _ => stable_of_own (Accounts w i r)) h fun t b t' hgood hat hacts => ?_
    obtain rfl : t' = t.push i (.verdict v) := hacts
    obtain ⟨hgood', hmove⟩ := hgood.concludes fun hr handoff hpending => by
      obtain ⟨v', rest', hcons, hof⟩ := hat.pending hr handoff hpending
      obtain ⟨rfl, -⟩ := List.cons.inj hcons
      exact hof
    refine ⟨hgood', hmove, ?_⟩
    rw [own_push_self]
    exact ⟨hat.books.grows rfl hat.books.settled, hat.judged, fun _ => rfl⟩

variable {S : Type} [Snapshot S]

/-- **What was judged is concluded**, pair by pair. -/
theorem safe_conclude (now : Int) (judged : List Judged) (hjudged : ∀ one ∈ judged, Forwards i one)
    {r : Relay κ} {l : List Event} (snapshot : S) {s : Net} (h : Accounts w i r l)
    (hgood : Good w s) (hown : s.own i = l) :
    (outline w).Safe i (fun res t => Accounts w i res.1 (t.own i))
    (Relay.conclude now judged r snapshot) s := by
  induction judged generalizing r l snapshot s with
  | nil => exact safe_pure (stable_of_own (Accounts w i r)) (hown ▸ h)
  | cons one rest ih =>
    obtain ⟨hone, hrest⟩ := List.forall_mem_cons.mp hjudged
    apply (safe_handOnJudged now h hone hgood hown).bind hgood
    intro res t hgood hconcluding
    obtain ⟨verdicts, r'⟩ := res
    apply (safe_verdict hconcluding).bind hgood
    intro _ u hgood haccounts
    have hfolded : Accounts w i (r'.foldVerdicts now verdicts snapshot).1 (u.own i) :=
      ⟨haccounts.books.same rfl rfl rfl rfl rfl rfl, haccounts.judged, haccounts.pending⟩
    exact ih hrest _ hfolded hgood rfl

/-- What a resume let go of. -/
theorem safe_letGo (h : Accounts w i r l) (hown : s.own i = l) :
    (outline w).Safe i (fun released t => Accounts w i r (t.own i) ∧ ∀ h ∈ released, w.resumes ∧
      Carries i h)
      r.letGo s := by
  have hstable (released : List Handoff) :
      Stable w i fun t => Accounts w i r (t.own i) ∧ ∀ h ∈ released, w.resumes ∧ Carries i h :=
    stable_of_own fun l' => Accounts w i r l' ∧ ∀ h ∈ released, w.resumes ∧ Carries i h
  unfold Relay.letGo
  split
  · refine safe_perform (stable_of_own (Accounts w i r)) hstable (hown ▸ h)
      fun t released t' hgood hat hacts => ?_
    obtain ⟨rfl, hreleased⟩ := hacts
    refine ⟨hgood, Move.refl, hat, fun handoff hmem => ?_⟩
    obtain ⟨hresumes, e, he, rfl, hevent⟩ := hreleased handoff hmem
    have hsound := hgood.sound e he
    rw [hevent] at hsound
    exact ⟨hresumes, hsound⟩
  · exact safe_pure (hstable []) ⟨hown ▸ h, fun _ hmem => absurd hmem List.not_mem_nil⟩

/-- What a resume let go of handed on. -/
theorem safe_handOnReleased (now : Int) (released : List Handoff)
    (hreleased : ∀ h ∈ released, w.resumes ∧ Carries i h) {r : Relay κ} {l : List Event} {s : Net}
    (h : Accounts w i r l) (hgood : Good w s) (hown : s.own i = l) :
    (outline w).Safe i (fun r' t => Accounts w i r' (t.own i)) (Relay.handOnReleased now released r)
      s := by
  induction released generalizing r l s with
  | nil => exact safe_pure (stable_of_own (Accounts w i r)) (hown ▸ h)
  | cons picked rest ih =>
    obtain ⟨⟨hresumes, hcarries⟩, hrest⟩ := List.forall_mem_cons.mp hreleased
    apply (safe_handOn now h hcarries hgood hown).bind hgood
    intro res t hgood hhanded
    obtain ⟨handed, r'⟩ := res
    have haccounts : Accounts w i r' (t.own i) :=
      ⟨hhanded.books, hhanded.judged, fun hr => absurd hresumes hr⟩
    have hdone : (Prog.perform (.done picked handed) : Prog RelayOp Unit).Only Silent :=
      ⟨trivial, fun _ => trivial⟩
    apply (safe_silent hdone rfl).bind hgood
    intro _ u hgood hsame
    exact ih hrest (hsame ▸ haccounts) hgood rfl

omit [Capability κ] in
/-- How many wait is told, and nothing moved. -/
theorem safe_inboxCounts (h : s.own i = l) :
    (outline w).Safe i (fun _ t => t.own i = l) r.inboxCounts s := by
  unfold Relay.inboxCounts
  split
  · exact safe_pure (stable_own l) h
  · apply safe_plain (stable_own l) h
    intro t b store hgood hown hmay
    obtain ⟨rfl, -, -⟩ := hmay.list
    refine ⟨⟨hgood, Move.refl⟩, fun _ => ?_⟩
    cases b with
    | error why => exact safe_pure (stable_own l) hown
    | ok names => exact safe_pure (stable_own l) hown

/-- What a round judges, of a slice of the matrix or of what is claimed. -/
theorem safe_drive (E : Estate) (now : Int) (h : Accounts w i r l) (hgood : Good w s)
    (hown : s.own i = l) :
    (outline w).Safe i (fun res t => Accounts w i res.2 (t.own i) ∧ ∀ one ∈ res.1, Forwards i one)
      (r.drive E now) s := by
  unfold Relay.drive
  split
  · apply (safe_receive E now h.books hgood hown).mono
    intro res u _ hres
    rw [hres.1]
    exact ⟨⟨hres.2.1, h.judged, h.pending⟩, hres.2.2⟩
  · exact safe_drainInbox E now h hgood hown

/-- **One round**: a relay's own counts stay those of what it is seen to do. -/
theorem safe_tick (E : Estate) (h : Accounts w i r l) (hgood : Good w s) (hown : s.own i = l) :
    (outline w).Safe i (fun res t => Accounts w i res.2 (t.own i))
    (r.tick E : Prog RelayOp (S × Relay κ)) s := by
  -- a round begins with the count alone
  have hcount : Accounts w i { r with round := r.round + 1 } l :=
    ⟨h.books.same rfl rfl rfl rfl rfl rfl, h.judged, h.pending⟩
  have hwork : (outline w).Safe i (fun ticked t => Accounts w i ticked.relay (t.own i))
      (r.work E : Prog RelayOp (Relay.Ticked κ S)) s := by
    have hnow : (Prog.perform .now : Prog RelayOp Int).Only Silent := ⟨trivial, fun _ => trivial⟩
    -- reading the clock is silent; each part of the round is asked of what the one before it left
    apply (safe_silent hnow hown).bind hgood
    intro now t hgood hown
    apply (safe_drive E now hcount hgood hown).bind hgood
    intro res u hgood hdriven
    obtain ⟨judged, driven⟩ := res
    refine (safe_conclude now judged hdriven.2 (Snapshot.new : S) hdriven.1 hgood rfl).bind hgood
      fun res v hgood hconcluded => ?_
    obtain ⟨concluded, snapshot⟩ := res
    apply (safe_letGo hconcluded rfl).bind hgood
    intro released x hgood hreleased
    refine (safe_handOnReleased now released hreleased.2 hreleased.1 hgood rfl).bind hgood
      fun handed y hgood hhanded => ?_
    -- a node of no ledger takes nothing, and the take is silent where it does
    have htake : (handed.take now (handed.ledger.close snapshot now)).Only Silent := by
      unfold Relay.take
      split
      · exact ⟨trivial, fun _ => trivial⟩
      · trivial
    apply (safe_silent htake rfl).bind hgood
    intro taken z hgood htaken
    apply (safe_inboxCounts htaken).bind hgood
    intro inbox a _ hat
    refine safe_pure (stable_of_own (Accounts w i handed)) ?_
    rw [hat]
    exact hhanded
  apply hwork.bind hgood
  intro ticked t _ hticked
  exact safe_pure (stable_of_own (Accounts w i ticked.relay)) hticked

end Net

end XmipEssentials
