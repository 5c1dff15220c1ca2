import XmipEssentials.LockStep.Ticks
import XmipEssentials.Records
import XmipEssentials.Roles

/-!
# An inbox drains as fast as it can fill

Relays tick in lock step: every receiving one, then every processing one, then every sending one,
each stage's in any order (`Round`). Where they are set by one level and one count of workers
(`Relay.at`), what one round brings is within every other stage's bound, whatever the transports,
the contracts and the faults come to: the receiving relays bring four pairs per worker each, a
processing relay hands on no more than it claims, and the bound of an inbox is that of all the
receiving relays together.
-/

namespace XmipEssentials

open Text Conc Files Inbox

variable {κ S : Type} [Capability κ] [Snapshot S]

/-! ### Lock step -/

/-- The relays of a cluster, by stage. -/
structure Fleet (κ : Type) where
  receiving : List (Relay κ)
  processing : List (Relay κ)
  sending : List (Relay κ)

/-- A tick that was made: what it published, the relay after it, and the inboxes as it left them. -/
structure Ticked (κ S : Type) where
  snapshot : S
  relay : Relay κ
  store : Store Inbox UInt8

/-- Relays tick one after another. -/
inductive Ticks (exec : Exec Unit RelayOp (Store Inbox UInt8)) (E : Estate) :
    List (Relay κ) → Store Inbox UInt8 → List (Relay κ) → Store Inbox UInt8 → List (Ticked κ S) →
    Prop where
  | nil {s} : Ticks exec E [] s [] s []
  | cons {r r' : Relay κ} {snapshot : S} {rs rs' s t s' log}
      (tick : (r.tick E).Runs exec () s (snapshot, r') t)
      (rest : Ticks exec E rs t rs' s' log) :
        Ticks exec E (r :: rs) s (r' :: rs') s' (⟨snapshot, r', t⟩ :: log)

/-- One round in lock step. -/
inductive Round (exec : Exec Unit RelayOp (Store Inbox UInt8)) (E : Estate) (f : Fleet κ)
    (s : Store Inbox UInt8) :
    Fleet κ → Store Inbox UInt8 → List (Ticked κ S) → Prop where
  | stages {rs ps ss rs' ps' ss' : List (Relay κ)} {t u v : Store Inbox UInt8}
      {received processed sent : List (Ticked κ S)}
      (receiving : f.receiving.Perm rs) (receive : Ticks exec E rs s rs' t received)
      (processing : f.processing.Perm ps) (process : Ticks exec E ps t ps' u processed)
      (sending : f.sending.Perm ss) (send : Ticks exec E ss u ss' v sent) :
      Round exec E f s ⟨rs', ps', ss'⟩ v (received ++ processed ++ sent)

/-- So many rounds in lock step, with every tick of them. -/
inductive Rounds (exec : Exec Unit RelayOp (Store Inbox UInt8)) (E : Estate) (f : Fleet κ)
    (s : Store Inbox UInt8) :
    Nat → Fleet κ → Store Inbox UInt8 → List (Ticked κ S) → Prop where
  | none : Rounds exec E f s 0 f s []
  | one {n f' s' log f'' s'' now} (before : Rounds exec E f s n f' s' log)
      (round : Round exec E f' s' f'' s'' now) :
      Rounds exec E f s (n + 1) f'' s'' (log ++ now)

/-- The relay of a node at a stage, set by a level. -/
def SetAt (roster : Roster κ) (cores : Cores) (stress : Stress) (stage : Stage) (name : Text)
    (r : Relay κ) : Prop :=
  ∃ setup node process L made, Relay.new setup name node stage roster process = some made ∧
    r = made.at L cores stress

/-- Every node's relay at every stage it serves, all set by one level and one count of workers. -/
structure Fleet.SetAt (roster : Roster κ) (cores : Cores) (stress : Stress) (f : Fleet κ) :
    Prop where
  receiving : List.Forall₂ (XmipEssentials.SetAt roster cores stress .receive)
    (roster.withStage .receive) f.receiving
  processing : List.Forall₂ (XmipEssentials.SetAt roster cores stress .process)
    (roster.withStage .process) f.processing
  sending : List.Forall₂ (XmipEssentials.SetAt roster cores stress .send) (roster.withStage .send)
    f.sending

/-! ### What a stage's ticks leave -/

/-- The inboxes that relays drain, one each. -/
def inboxes (rs : List (Relay κ)) : Finset Inbox := (rs.map Relay.inbox).toFinset

omit [Capability κ] in
private theorem mem_inboxes {rs : List (Relay κ)} {d : Inbox} :
    d ∈ inboxes rs ↔ ∃ r ∈ rs, r.inbox = d := by
  rw [inboxes, List.mem_toFinset, List.mem_map]

/-- A relay that drains its inbox at a stage, so many handoffs a round at least. -/
structure Relay.Drains (stage : Stage) (bound : Nat) (r : Relay κ) : Prop where
  stage : r.stage = stage
  bound : bound ≤ r.perRound

/-- A relay that receives, so many pairs a round at most. -/
structure Relay.Brings (count : Nat) (r : Relay κ) : Prop where
  stage : r.stage = .receive
  count : r.perRound ≤ count

variable {exec : Exec Unit RelayOp (Store Inbox UInt8)} {E : Estate} {rs rs' : List (Relay κ)}
  {s s' : Store Inbox UInt8} {log : List (Ticked κ S)}

omit [Capability κ] in
private theorem inboxes_same (h : List.Forall₂ Relay.Same rs rs') : inboxes rs' = inboxes rs := by
  have hmap : rs'.map Relay.inbox = rs.map Relay.inbox := by
    induction h with
    | nil => rfl
    | cons hsame _ ih => rw [List.map_cons, List.map_cons, hsame.inbox, ih]
  rw [inboxes, hmap, inboxes]

omit [Capability κ] in
/-- What a relay that is set up the same keeps. -/
theorem forall_same {P : Relay κ → Prop} (hP : ∀ r r' : Relay κ, r.Same r' → P r → P r')
    (h : List.Forall₂ Relay.Same rs rs') (hrs : ∀ r ∈ rs, P r) : ∀ r ∈ rs', P r := by
  induction h with
  | nil => exact fun _ hr => absurd hr List.not_mem_nil
  | cons hsame _ ih =>
    intro r hr
    rcases List.mem_cons.mp hr with rfl | hr
    · exact hP _ _ hsame (hrs _ List.mem_cons_self)
    · exact ih (fun r hr => hrs r (List.mem_cons_of_mem _ hr)) r hr

omit [Capability κ] in
private theorem Relay.Drains.same {stage : Stage} {bound : Nat} {r r' : Relay κ} (hsame : r.Same r')
    (h : r.Drains stage bound) : r'.Drains stage bound :=
  ⟨hsame.stage.trans h.stage, hsame.setup ▸ h.bound⟩

omit [Capability κ] in
private theorem Relay.Brings.same {count : Nat} {r r' : Relay κ} (hsame : r.Same r')
    (h : r.Brings count) :
    r'.Brings count :=
  ⟨hsame.stage.trans h.stage, hsame.setup ▸ h.count⟩

section Ticks

variable (hexec : WithinAlone exec)

include hexec

/-- **The receiving relays tick**: what they bring together comes to process stages. -/
theorem Ticks.receive {count : Nat} (h : Ticks exec E rs s rs' s' log)
    (hrs : ∀ r ∈ rs, r.Brings count) :
    List.Forall₂ Relay.Same rs rs' ∧ Arrive (some .process) (rs.length * count) s s' ∧
      ∀ one ∈ log, one.relay.stage = .receive := by
  induction h with
  | nil => exact ⟨.nil, Arrive.none.mono (Nat.zero_le _), fun _ h => absurd h List.not_mem_nil⟩
  | @cons r r' snapshot rs rs' s t s' log tick rest ih =>
    have hr := hrs r List.mem_cons_self
    obtain ⟨hsame, harrive⟩ := Relay.ends_tick_receive hexec E r hr.stage _ _ tick
    obtain ⟨hall, hrest, hlog⟩ := ih fun r hr => hrs r (List.mem_cons_of_mem _ hr)
    refine ⟨.cons hsame hall, ?_, ?_⟩
    · rw [List.length_cons, Nat.succ_mul, Nat.add_comm]
      exact (harrive.mono hr.count).trans hrest
    · intro one hone
      rcases List.mem_cons.mp hone with rfl | hone
      · exact hsame.stage.trans hr.stage
      · exact hlog one hone

end Ticks

/-- What a stage's ticks leave of some inboxes: no more waits in all than did, and none that was
empty has filled, but for those of the next stage. -/
structure Drained (stage : Stage) (D : Finset Inbox) (s s' : Store Inbox UInt8) : Prop where
  fewer : load D s' ≤ load D s
  kept : ∀ d : Inbox, some d.2 ≠ stage.next → waits s d = ∅ → waits s' d = ∅

variable {stage : Stage} {D : Finset Inbox} {s'' : Store Inbox UInt8}

private theorem Drained.refl : Drained stage D s s := ⟨le_rfl, fun _ _ h => h⟩

private theorem Drained.trans (h : Drained stage D s s') (h' : Drained stage D s' s'') :
    Drained stage D s s'' :=
  ⟨h'.fewer.trans h.fewer, fun d hd hnone => h'.kept d hd (h.kept d hd hnone)⟩

/-- What is handed on was claimed first, from an inbox counted in. -/
theorem Drained.of_claim {dir : Inbox} {limit count : Nat} (hclaim : Claim dir limit count s s')
    (harrive : Arrive stage.next count s' s'') (hdir : dir ∈ D) : Drained stage D s s'' := by
  refine ⟨?_, fun d hd hnone => ?_⟩
  · have hrest : load (D.erase dir) s' = load (D.erase dir) s :=
      load_congr fun d hd => hclaim.elsewhere d (Finset.ne_of_mem_erase hd)
    have hbefore := add_load_erase (s := s) hdir
    have hafter := add_load_erase (s := s') hdir
    have hleft := hclaim.left
    have hloaded := harrive.loaded D
    omega
  · rw [harrive.elsewhere d hd]
    by_cases hsame : d = dir
    · have hleft := hclaim.left
      rw [← hsame, hnone, Finset.card_empty] at hleft
      exact Finset.card_eq_zero.mp (by omega)
    · rw [hclaim.elsewhere d hsame, hnone]

theorem Stage.next_ne (stage : Stage) : some stage ≠ stage.next := by
  cases stage <;> decide

/-- **The relays of a stage tick that drains its inboxes**: where all that waits is within each
one's bound, each leaves its own empty, and it stays so. -/
theorem Ticks.drain {bound : Nat} (hexec : WithinAlone exec) (h : Ticks exec E rs s rs' s' log)
    (hstage : stage ≠ .receive) (hrs : ∀ r ∈ rs, r.Drains stage bound) (hD : inboxes rs ⊆ D)
    (hload : load D s ≤ bound) :
    List.Forall₂ Relay.Same rs rs' ∧ Drained stage D s s' ∧ (∀ r ∈ rs, waits s' r.inbox = ∅) ∧
      ∀ one ∈ log, waits one.store one.relay.inbox = ∅ := by
  induction h with
  | nil => exact ⟨.nil, .refl, fun _ h => absurd h List.not_mem_nil,
      fun _ h => absurd h List.not_mem_nil⟩
  | @cons r r' snapshot rs rs' s t s' log tick rest ih =>
    have hr := hrs r List.mem_cons_self
    have hmine : r.inbox ∈ D := hD (mem_inboxes.mpr ⟨r, List.mem_cons_self, rfl⟩)
    -- what the first of them hands on goes to the next stage, so its own inbox gets nothing
    have hown : some r.inbox.2 ≠ stage.next := by
      rw [Relay.inbox, hr.stage]
      exact stage.next_ne
    obtain ⟨hsame, count, u, hclaim, harrive⟩ :=
      Relay.ends_tick_drain hexec E r (fun heq => hstage (hr.stage.symm.trans heq)) _ _ tick
    rw [hr.stage] at harrive
    have hone : Drained stage D s t := .of_claim hclaim harrive hmine
    -- its inbox held no more than its bound, so claiming emptied it
    have hfew : (waits s r.inbox).card ≤ r.perRound :=
      calc (waits s r.inbox).card
          ≤ load D s := card_le_load hmine
        _ ≤ bound := hload
        _ ≤ r.perRound := hr.bound
    have hnone : waits t r.inbox = ∅ := by
      rw [harrive.elsewhere r.inbox hown]
      exact hclaim.drained hfew
    obtain ⟨hall, hrest, hempty, hlog⟩ := ih (fun r hr => hrs r (List.mem_cons_of_mem _ hr))
      (fun d hd => by
        obtain ⟨r, hr, rfl⟩ := mem_inboxes.mp hd
        exact hD (mem_inboxes.mpr ⟨r, List.mem_cons_of_mem _ hr, rfl⟩))
      -- no more waits than before, so the bound still holds for the rest
      (hone.fewer.trans hload)
    refine ⟨.cons hsame hall, hone.trans hrest, fun r'' hr'' => ?_, fun one hin => ?_⟩
    · rcases List.mem_cons.mp hr'' with rfl | hr''
      · -- drained once, an inbox stays empty: nothing of this stage fills it
        exact hrest.kept _ hown hnone
      · exact hempty r'' hr''
    · rcases List.mem_cons.mp hin with rfl | hin
      · exact hsame.inbox ▸ hnone
      · exact hlog one hin

/-! ### Rounds -/

namespace Fleet

/-- The inboxes of a cluster: those of its processing and its sending relays. -/
def inboxes (f : Fleet κ) : Finset Inbox := XmipEssentials.inboxes (f.processing ++ f.sending)

/-- What the receiving relays bring together is within every other relay's bound. -/
structure Bounded (count senders : Nat) (f : Fleet κ) : Prop where
  brought : f.receiving.length = senders
  receiving : ∀ r ∈ f.receiving, r.Brings count
  processing : ∀ r ∈ f.processing, r.Drains .process (senders * count)
  sending : ∀ r ∈ f.sending, r.Drains .send (senders * count)

variable {count senders : Nat} {f f' : Fleet κ}

/-- **One round**: from empty inboxes, every inbox is empty after its own relay's tick, and at the
round's end. -/
theorem Bounded.round (hexec : WithinAlone exec) (h : Round exec E f s f' s' log)
    (hf : f.Bounded count senders) (hempty : load f.inboxes s = 0) :
    f'.Bounded count senders ∧ f'.inboxes = f.inboxes ∧ load f'.inboxes s' = 0 ∧
      ∀ one ∈ log, one.relay.stage ≠ .receive → waits one.store one.relay.inbox = ∅ := by
  obtain ⟨receiving, receive, processing, process, sending, send⟩ := h
  rename_i rs ps ss rs' ps' ss' t u received processed sent
  set D := f.inboxes with hD
  have hps : XmipEssentials.inboxes ps ⊆ D := by
    intro d hd
    obtain ⟨r, hr, rfl⟩ := mem_inboxes.mp hd
    exact mem_inboxes.mpr ⟨r, List.mem_append_left _ (processing.mem_iff.mpr hr), rfl⟩
  have hss : XmipEssentials.inboxes ss ⊆ D := by
    intro d hd
    obtain ⟨r, hr, rfl⟩ := mem_inboxes.mp hd
    exact mem_inboxes.mpr ⟨r, List.mem_append_right _ (sending.mem_iff.mpr hr), rfl⟩
  -- What the receiving relays bring is all there is.
  obtain ⟨hrs', hbrought, hreceived⟩ := receive.receive hexec fun r hr =>
    hf.receiving r (receiving.mem_iff.mpr hr)
  have hload : load D t ≤ senders * count := by
    have hloaded := hbrought.loaded D
    rw [hempty, Nat.zero_add, ← receiving.length_eq, hf.brought] at hloaded
    exact hloaded
  obtain ⟨hps', hworked, hpnone, hprocessed⟩ := process.drain hexec (by decide)
    (fun r hr => hf.processing r (processing.mem_iff.mpr hr)) hps hload
  obtain ⟨hss', hsent, hsnone, hsentOut⟩ := send.drain hexec (by decide)
    (fun r hr => hf.sending r (sending.mem_iff.mpr hr)) hss (hworked.fewer.trans hload)
  have hinboxes : (⟨rs', ps', ss'⟩ : Fleet κ).inboxes = D := by
    rw [hD, inboxes, inboxes_same (List.rel_append hps' hss'), inboxes]
    ext d
    rw [mem_inboxes, mem_inboxes]
    exact exists_congr fun r => and_congr_left fun _ => ((processing.append sending).mem_iff).symm
  refine ⟨⟨?_, ?_, ?_, ?_⟩, hinboxes, ?_, ?_⟩
  · calc rs'.length
        = rs.length := hrs'.length_eq.symm
      _ = f.receiving.length := receiving.length_eq.symm
      _ = senders := hf.brought
  · exact forall_same (fun _ _ => Relay.Brings.same) hrs' fun r hr =>
      hf.receiving r (receiving.mem_iff.mpr hr)
  · exact forall_same (fun _ _ => Relay.Drains.same) hps' fun r hr =>
      hf.processing r (processing.mem_iff.mpr hr)
  · exact forall_same (fun _ _ => Relay.Drains.same) hss' fun r hr =>
      hf.sending r (sending.mem_iff.mpr hr)
  · rw [hinboxes]
    refine Finset.sum_eq_zero fun d hd => Finset.card_eq_zero.mpr ?_
    obtain ⟨r, hr, rfl⟩ := mem_inboxes.mp hd
    rcases List.mem_append.mp hr with hr | hr
    · -- No sending relay hands on, so what a processing one left empty stays so.
      exact hsent.kept _ (Option.some_ne_none _) (hpnone r (processing.mem_iff.mp hr))
    · exact hsnone r (sending.mem_iff.mp hr)
  · intro one hone hstage
    rcases List.mem_append.mp hone with hone | hone
    · rcases List.mem_append.mp hone with hone | hone
      · exact absurd (hreceived one hone) hstage
      · exact hprocessed one hone
    · exact hsentOut one hone

/-- **Any number of rounds.** -/
theorem Bounded.rounds {n : Nat} (hexec : WithinAlone exec) (h : Rounds exec E f s n f' s' log)
    (hf : f.Bounded count senders) (hempty : load f.inboxes s = 0) :
    f'.Bounded count senders ∧ load f'.inboxes s' = 0 ∧
      ∀ one ∈ log, one.relay.stage ≠ .receive → waits one.store one.relay.inbox = ∅ := by
  induction h with
  | none => exact ⟨hf, hempty, fun _ h => absurd h List.not_mem_nil⟩
  | one before round ih =>
    obtain ⟨hf', hempty', hlog⟩ := ih
    obtain ⟨hf'', -, hempty'', hnow⟩ := hf'.round hexec round hempty'
    refine ⟨hf'', hempty'', fun one hone => ?_⟩
    rcases List.mem_append.mp hone with hone | hone
    · exact hlog one hone
    · exact hnow one hone

end Fleet

/-! ### Relays set by one level -/

section SetAt

variable {roster : Roster κ} {cores : Cores} {stress : Stress} {name : Text} {r : Relay κ}

/-- What a level makes of a relay's bound. -/
theorem SetAt.bound (h : SetAt roster cores stress stage name r) : r.stage = stage ∧
    r.perRound = max (stress.workers cores * 4 *
      if stage = .receive then 1 else max (roster.withStage .receive).length 1) 1 := by
  obtain ⟨setup, node, process, L, made, hnew, rfl⟩ := h
  unfold Relay.new at hnew
  split at hnew
  · cases hnew
  · obtain rfl := Option.some.inj hnew
    exact ⟨rfl, rfl⟩

private theorem SetAt.brings (h : SetAt roster cores stress .receive name r) :
    r.Brings (stress.workers cores * 4) := by
  obtain ⟨hstage, hbound⟩ := h.bound
  have hpos := stress.workers_pos cores
  refine ⟨hstage, ?_⟩
  rw [hbound, if_pos rfl]
  omega

private theorem SetAt.drains (h : SetAt roster cores stress stage name r)
    (hstage : stage ≠ .receive) :
    r.Drains stage ((roster.withStage .receive).length * (stress.workers cores * 4)) := by
  obtain ⟨hsame, hbound⟩ := h.bound
  refine ⟨hsame, ?_⟩
  rw [hbound, if_neg hstage, Nat.mul_comm]
  exact (Nat.mul_le_mul_left _ (Nat.le_max_left _ 1)).trans (Nat.le_max_left _ 1)

/-- What the relation says of each it says of every one. -/
theorem forall_of_forall₂ {α β : Type} {R : α → β → Prop} {P : β → Prop} (hP : ∀ ⦃a b⦄, R a b → P b)
    {l : List α} {l' : List β} (h : List.Forall₂ R l l') : ∀ b ∈ l', P b := by
  induction h with
  | nil => exact fun _ hb => absurd hb List.not_mem_nil
  | cons hab _ ih => exact List.forall_mem_cons.mpr ⟨hP hab, ih⟩

/-- What the receiving relays bring together is within every other relay's bound. -/
theorem Fleet.SetAt.bounded {f : Fleet κ} (h : f.SetAt roster cores stress) :
    f.Bounded (stress.workers cores * 4) (roster.withStage .receive).length where
  brought := h.receiving.length_eq.symm
  receiving := forall_of_forall₂ (fun _ _ hset => hset.brings) h.receiving
  processing := forall_of_forall₂ (fun _ _ hset => hset.drains (by decide)) h.processing
  sending := forall_of_forall₂ (fun _ _ hset => hset.drains (by decide)) h.sending

/-- **An inbox drains as fast as it can fill**: over any number of rounds in lock step of relays set
by one level and one count of workers, from empty inboxes, every process and send inbox is empty
after its own relay's tick, and all of them are after the round. -/
theorem empty_after_tick (hexec : WithinAlone exec) {f f' : Fleet κ}
    (hset : f.SetAt roster cores stress) (hempty : ∀ d, waits s d = ∅) {n : Nat}
    (h : Rounds exec E f s n f' s' log) :
    (∀ one ∈ log, one.relay.stage ≠ .receive → waits one.store one.relay.inbox = ∅) ∧
      ∀ r ∈ f'.processing ++ f'.sending, waits s' r.inbox = ∅ := by
  have hload : load f.inboxes s = 0 := Finset.sum_eq_zero fun d _ =>
    Finset.card_eq_zero.mpr (hempty d)
  obtain ⟨-, hnone, hlog⟩ := hset.bounded.rounds hexec h hload
  refine ⟨hlog, fun r hr => Finset.card_eq_zero.mp (Nat.eq_zero_of_le_zero ?_)⟩
  exact hnone ▸ card_le_load (mem_inboxes.mpr ⟨r, hr, rfl⟩)

end SetAt

/-! ### Rounds are made -/

/-- Each relay has its tick. -/
theorem exists_ticks (htotal : exec.Total) (rs : List (Relay κ)) (s : Store Inbox UInt8) :
    ∃ rs' s' log, Ticks (S := S) exec E rs s rs' s' log ∧ rs'.length = rs.length ∧
    log.length = rs.length := by
  induction rs generalizing s with
  | nil => exact ⟨[], s, [], .nil, rfl, rfl⟩
  | cons r rs ih =>
    obtain ⟨⟨snapshot, r'⟩, t, tick⟩ := (r.tick E : Prog RelayOp (S × Relay κ)).exists_runs htotal s
    obtain ⟨rs', s', log, rest, hsame, hlength⟩ := ih t
    exact ⟨r' :: rs', s', ⟨snapshot, r', t⟩ :: log, .cons tick rest, congrArg (· + 1) hsame,
      congrArg (· + 1) hlength⟩

/-- How many relays there are. -/
def Fleet.size (f : Fleet κ) : Nat := f.receiving.length + f.processing.length + f.sending.length

/-- Where every call answers, there is a round: every relay ticks in it. -/
theorem exists_round (htotal : exec.Total) (f : Fleet κ) (s : Store Inbox UInt8) :
    ∃ f' s' log, Round (S := S) exec E f s f' s' log ∧ f'.size = f.size ∧ log.length = f.size := by
  obtain ⟨rs', t, received, receive, hrs, hreceived⟩ :=
    exists_ticks (S := S) (E := E) htotal f.receiving s
  obtain ⟨ps', u, processed, process, hps, hprocessed⟩ :=
    exists_ticks (S := S) (E := E) htotal f.processing t
  obtain ⟨ss', v, sent, send, hss, hsent⟩ := exists_ticks (S := S) (E := E) htotal f.sending u
  refine ⟨⟨rs', ps', ss'⟩, v, received ++ processed ++ sent,
    .stages (.refl _) receive (.refl _) process (.refl _) send, ?_, ?_⟩
  · rw [Fleet.size, hrs, hps, hss, Fleet.size]
  · rw [List.length_append, List.length_append, hreceived, hprocessed, hsent, Fleet.size]

theorem exists_rounds (htotal : exec.Total) (f : Fleet κ) (s : Store Inbox UInt8) (n : Nat) :
    ∃ f' s' log, Rounds (S := S) exec E f s n f' s' log ∧ f'.size = f.size ∧
    log.length = n * f.size := by
  induction n with
  | zero => exact ⟨f, s, [], .none, rfl, (Nat.zero_mul _).symm⟩
  | succ n ih =>
    obtain ⟨f', s', log, before, hsize, hlength⟩ := ih
    obtain ⟨f'', s'', now, round, hsize', hlength'⟩ := exists_round (S := S) (E := E) htotal f' s'
    refine ⟨f'', s'', log ++ now, .one before round, hsize'.trans hsize, ?_⟩
    rw [List.length_append, hlength, hlength', hsize, Nat.succ_mul]

/-- Every call answers as it does alone. -/
def alone : Exec Unit RelayOp (Store Inbox UInt8) := fun _ _ op s b s' => Alone op s b s'

theorem alone_total : alone.Total := by
  intro _ β op s
  obtain ⟨answer⟩ := op.nonempty
  cases op with
  | file op note =>
    obtain ⟨b, s', h⟩ := FileOp.exists_does op s
    exact ⟨b, s', h⟩
  | released => exact ⟨[], s, rfl, rfl⟩
  | _ => exact ⟨answer, s, rfl⟩

/-- A roster that covers the path has a relay at every stage each node serves, of whatever kind is
made of new ones. -/
theorem exists_relays {roster : Roster κ} (hcovers : roster.coversThePath = true) (setup : Setup)
    (stage : Stage) {R : Text → Relay κ → Prop}
    (hR : ∀ name made, Relay.new setup name name stage roster 1 = some made → ∃ r, R name r) :
    ∃ rs, List.Forall₂ R (roster.withStage stage) rs := by
  -- Of any names that serve the stage, so that the induction leaves the roster as it is.
  suffices h : ∀ names, (∀ name ∈ names, name ∈ roster.withStage stage) →
    ∃ rs, List.Forall₂ R names rs from
    h _ fun _ h => h
  intro names hin
  induction names with
  | nil => exact ⟨[], .nil⟩
  | cons name names ih =>
    obtain ⟨rs, hrs⟩ := ih fun name hname => hin name (List.mem_cons_of_mem _ hname)
    have hserves : (roster.withStage stage).contains name = true :=
      List.contains_iff_mem.mpr (hin name List.mem_cons_self)
    have hmade : ∃ made, Relay.new setup name name stage roster 1 = some made := by
      rw [Relay.new, Roster.refusal_of_coversThePath hcovers, hserves]
      exact ⟨_, rfl⟩
    obtain ⟨made, hmade⟩ := hmade
    obtain ⟨r, hr⟩ := hR name made hmade
    exact ⟨r :: rs, .cons hr hrs⟩

private theorem exists_setAt {roster : Roster κ} (hcovers : roster.coversThePath = true)
    (setup : Setup) (L : Leveling) (cores : Cores) (stress : Stress) (stage : Stage) :
    ∃ rs, List.Forall₂ (SetAt roster cores stress stage) (roster.withStage stage) rs :=
  exists_relays hcovers setup stage fun name made hmade =>
    ⟨made.at L cores stress, setup, name, 1, L, made, hmade, rfl⟩

/-- Two rounds of a relay to each stage, every pair of one transport brought. -/
theorem empty_after_tick_path :
    ∃ (f f' : Fleet Roles) (s' : Store Inbox UInt8) (log : List (Ticked Roles Records)),
      f.SetAt Roles.path ⟨2, by decide⟩ .harsh ∧
      Rounds alone ⟨⟨fun _ _ => [], fun _ _ => []⟩, fun _ _ => .ok ()⟩ f (fun _ => none) 2 f' s'
        log ∧
      log.length = 6 ∧
        (∀ one ∈ log, one.relay.stage ≠ .receive → waits one.store one.relay.inbox = ∅) ∧
        ∀ r ∈ f'.processing ++ f'.sending, waits s' r.inbox = ∅ := by
  have hmade := @exists_setAt Roles _ Roles.path (by decide)
    ⟨["file".toList], .none, ⟨fun _ _ _ => [], fun _ _ _ => .delivered⟩, none, 1, false⟩
    ⟨fun _ => ⟨fun _ _ _ => [], fun _ _ _ => .delivered⟩, fun _ _ _ _ => none⟩ ⟨2, by decide⟩ .harsh
  obtain ⟨rs, hrs⟩ := hmade .receive
  obtain ⟨ps, hps⟩ := hmade .process
  obtain ⟨ss, hss⟩ := hmade .send
  obtain ⟨f', s', log, hrounds, -, hlength⟩ := exists_rounds (S := Records)
    (E := ⟨⟨fun _ _ => [], fun _ _ => []⟩, fun _ _ => .ok ()⟩) alone_total ⟨rs, ps, ss⟩
      (fun _ => none) 2
  have hset : (⟨rs, ps, ss⟩ : Fleet Roles).SetAt Roles.path ⟨2, by decide⟩ .harsh := ⟨hrs, hps, hss⟩
  refine ⟨⟨rs, ps, ss⟩, f', s', log, hset, hrounds, ?_,
    -- two rounds of a fleet of three, every act alone
    empty_after_tick (fun _ _ _ _ _ h => h) hset waits_none hrounds⟩
  rw [hlength, Fleet.size, ← hrs.length_eq, ← hps.length_eq, ← hss.length_eq]
  decide

end XmipEssentials
