import Mathlib.Order.Interval.Finset.Nat
import XmipEssentials.DailyBacklog
import XmipEssentials.Lib.Escalation

/-!
# A lone backlog recovers

A drain alone with its directory, whatever waits there, where the files are counted to one feeder
and the calls come to what they come to alone (`Lone`). Each of its rounds is one of a queue that
raises its own capacity (`Escalation`), so readers are raised, a node is added in a later round and
by the fifth, and from then on the backlog falls until nothing waits (`backlog_recovers`).

An arrival may be written over a file already there, and then the round has one file fewer; what the
drain itself dropped and did not take since (`own`) is what carries the argument.
-/

namespace XmipEssentials.DailyBacklog

open Text Conc Files

/-- The calls of a drain alone with its directory. -/
def Lone : {β : Type} → BacklogOp β → Store Unit UInt8 → β → Store Unit UInt8 → Prop
  | _, .file op, s, b, s' => op.Does s b s'
  | _, _, s, _, s' => s' = s

def lone : Exec Unit BacklogOp (Store Unit UInt8) := fun _ _ op s b s' => Lone op s b s'

/-- The names of a count's arrivals from one on, to another. -/
def arrivals (tag first last : Nat) : Finset Text := (Finset.Icc first last).image (arrivalName tag)

private theorem card_arrivals (tag first last : Nat) :
    (arrivals tag first last).card = last + 1 - first := by
  rw [arrivals, Finset.card_image_of_injective _ fun _ _ h => (Yard.arrivalName_inj h).2,
    Nat.card_Icc]

/-- Of the names, those of what the drain dropped so far. -/
def own (tag seq : Nat) (names : Finset Text) : Nat := (names ∩ arrivals tag 1 seq).card

private theorem own_le (tag seq : Nat) (names : Finset Text) : own tag seq names ≤ names.card :=
  Finset.card_le_card Finset.inter_subset_left

/-- All arrivals so far are the drain's own, those dropped last among them. -/
theorem own_arrivals (tag seq count : Nat) (names : Finset Text) :
    own tag seq names + count ≤ own tag (seq + count)
    (names ∪ arrivals tag (seq + 1) (seq + count)) := by
  -- What was dropped before has lower numbers.
  have hapart : Disjoint (names ∩ arrivals tag 1 seq) (arrivals tag (seq + 1) (seq + count)) := by
    apply Finset.disjoint_left.mpr
    intro name hbefore hnow
    obtain ⟨k, hk, rfl⟩ := Finset.mem_image.mp (Finset.mem_inter.mp hbefore).2
    obtain ⟨l, hl, heq⟩ := Finset.mem_image.mp hnow
    obtain rfl := (Yard.arrivalName_inj heq).2
    have hle := (Finset.mem_Icc.mp hk).2
    have hlt := (Finset.mem_Icc.mp hl).1
    omega
  have hsub : names ∩ arrivals tag 1 seq ∪ arrivals tag (seq + 1) (seq + count) ⊆
      (names ∪ arrivals tag (seq + 1) (seq + count)) ∩ arrivals tag 1 (seq + count) := by
    refine Finset.union_subset (Finset.inter_subset_inter Finset.subset_union_left ?_)
      (Finset.subset_inter Finset.subset_union_right ?_)
    · exact Finset.image_subset_image (Finset.Icc_subset_Icc_right (Nat.le_add_right seq count))
    · exact Finset.image_subset_image
        (Finset.Icc_subset_Icc_left (Nat.succ_le_succ (Nat.zero_le seq)))
  calc own tag seq names + count
      = (names ∩ arrivals tag 1 seq ∪ arrivals tag (seq + 1) (seq + count)).card := by
        rw [Finset.card_union_of_disjoint hapart, card_arrivals, own]
        omega
    _ ≤ _ := Finset.card_le_card hsub

/-- A drain takes no more of its own than it takes. -/
theorem own_sdiff (tag seq : Nat) (names taken : Finset Text) :
    own tag seq names ≤ own tag seq (names \ taken) + taken.card := by
  have hsub : (names ∩ arrivals tag 1 seq) \ taken ⊆ (names \ taken) ∩ arrivals tag 1 seq := by
    intro name hname
    obtain ⟨hin, hnot⟩ := Finset.mem_sdiff.mp hname
    obtain ⟨hnames, harrivals⟩ := Finset.mem_inter.mp hin
    exact Finset.mem_inter.mpr ⟨Finset.mem_sdiff.mpr ⟨hnames, hnot⟩, harrivals⟩
  have hcard := Finset.card_le_card hsub
  have hleft := Finset.le_card_sdiff taken (names ∩ arrivals tag 1 seq)
  unfold own
  omega

/-! ### What each call leaves of the names -/

section Calls

variable {s s' : Store Unit UInt8} {name : Text}

private theorem names_makeDir {b : Except Text Unit} (h : lone () (.file (.makeDir ())) s b s') :
    s'.names () = s.names () ∧ (s' ()).isSome := by
  have hmay : (FileOp.makeDir ()).May False s b s' := .inl h
  obtain ⟨hfile, hthere, hok⟩ := hmay.makeDir
  refine ⟨Finset.ext fun name => ?_, hthere (hok id)⟩
  rw [Store.mem_names, Store.mem_names, hfile]

private theorem names_create {b : Except Text Unit} (hthere : (s ()).isSome)
    (h : lone () (.file (.create () name)) s b s') :
    b = .ok () ∧ s'.names () = insert name (s.names ()) ∧ (s' ()).isSome := by
  have hmay : (FileOp.create () name).May False s b s' := .inl h
  rcases hmay.create with ⟨-, -, hnone⟩ | ⟨rfl, hputs⟩
  · rw [hnone id] at hthere
    exact absurd hthere Bool.false_ne_true
  · refine ⟨rfl, Finset.ext fun other => ?_, hmay.keeps_dir hthere⟩
    rw [Finset.mem_insert, Store.mem_names, Store.mem_names]
    by_cases hsame : other = name
    · rw [hsame, hputs.self]
      exact iff_of_true rfl (.inl rfl)
    · rw [hputs.other fun hat => hsame hat.2]
      exact (or_iff_right hsame).symm

private theorem names_write {b : Except Text Unit} {content : List UInt8} (hthere : (s ()).isSome)
    (h : lone () (.file (.write () name content)) s b s') : s'.names () = s.names () ∧
    (s' ()).isSome := by
  have hmay : (FileOp.write () name content).May False s b s' := .inl h
  refine ⟨Finset.ext fun other => ?_, hmay.keeps_dir hthere⟩
  rw [Store.mem_names, Store.mem_names]
  cases hfile : s.file () name with
  | none => rw [hmay.write_absent hfile]
  | some old =>
    obtain ⟨-, hfails, -⟩ | ⟨-, hputs⟩ := hmay.write (Option.isSome_iff_exists.mpr ⟨old, hfile⟩)
    · exact hfails.elim
    · by_cases hsame : other = name
      · rw [hsame, hputs.self, hfile]
        exact iff_of_true rfl rfl
      · rw [hputs.other fun hat => hsame hat.2]

/-- What is there is removed, as nobody else removes it first. -/
theorem names_remove {b : Except Text Unit} (hthere : (s ()).isSome) (hname : name ∈ s.names ())
    (h : lone () (.file (.remove () name)) s b s') :
    b = .ok () ∧ s'.names () = s.names () \ {name} ∧ (s' ()).isSome := by
  have hmay : (FileOp.remove () name).May False s b s' := .inl h
  rw [Store.mem_names] at hname
  rcases hmay.remove with ⟨-, -, hnone⟩ | ⟨rfl, -, hputs⟩
  · rw [hnone id] at hname
    exact absurd hname Bool.false_ne_true
  · refine ⟨rfl, Finset.ext fun other => ?_, hmay.keeps_dir hthere⟩
    rw [Finset.mem_sdiff, Finset.mem_singleton, Store.mem_names, Store.mem_names]
    by_cases hsame : other = name
    · rw [hsame, hputs.self]
      exact iff_of_false Bool.false_ne_true fun hat => hat.2 rfl
    · rw [hputs.other fun hat => hsame hat.2]
      exact (and_iff_left hsame).symm

private theorem names_list {b : Except Text (List Text)} (hthere : (s ()).isSome)
    (h : lone () (.file (.list ())) s b s') :
    s' = s ∧ ∃ names : List Text, b = .ok names ∧ names.Nodup ∧ names.toFinset = s.names () := by
  have hmay : (FileOp.list ()).May False s b s' := .inl h
  obtain ⟨rfl, hnames, hok⟩ := hmay.list
  obtain ⟨names, rfl⟩ := hok id hthere
  obtain ⟨hnodup, hmem⟩ := hnames names rfl
  refine ⟨rfl, names, rfl, hnodup, Finset.ext fun name => ?_⟩
  rw [List.mem_toFinset, hmem, Store.mem_names]

end Calls

/-! ### The parts of a round -/

variable {s : Store Unit UInt8} {r : DailyBacklog}

/-- Arrivals land under the names that follow, over what is there of those. -/
theorem ends_arrive (count : Nat) (hthere : (s ()).isSome) :
    (arrive count r).Ends lone () (fun r' t =>
    r' = { r with seq := r.seq + count } ∧ (t ()).isSome ∧
      t.names () = s.names () ∪ arrivals r.tag (r.seq + 1) (r.seq + count)) s := by
  induction count generalizing r s with
  | zero =>
    refine Prog.ends_pure.mpr ⟨rfl, hthere, ?_⟩
    -- no arrival, and no name for one
    have hnone : arrivals r.tag (r.seq + 1) (r.seq + 0) = ∅ := by
      rw [← Finset.card_eq_zero, card_arrivals]
      omega
    rw [hnone, Finset.union_empty]
  | succ count ih =>
    -- one file is created, written, and the count goes up
    refine Prog.ends_call.mpr fun b t hcreate => ?_
    obtain ⟨rfl, hcreated, hthere⟩ := names_create hthere hcreate
    refine Prog.ends_call.mpr fun b u hwrite => ?_
    obtain ⟨hwritten, hthere⟩ := names_write hthere hwrite
    refine (ih (r := { r with seq := r.seq + 1 }) hthere).mono fun r' v hended => ?_
    obtain ⟨rfl, hthere, hnames⟩ := hended
    refine ⟨?_, hthere, ?_⟩
    · rw [Nat.add_assoc, Nat.add_comm 1 count]
    · -- The first of the arrivals and those after it.
      have hfirst : arrivals r.tag (r.seq + 1) (r.seq + (count + 1)) =
          insert (arrivalName r.tag (r.seq + 1))
          (arrivals r.tag (r.seq + 1 + 1) (r.seq + 1 + count)) := by
        have hsplit : Finset.Icc (r.seq + 1) (r.seq + (count + 1)) =
            insert (r.seq + 1) (Finset.Icc (r.seq + 1 + 1) (r.seq + 1 + count)) := by
          ext k
          rw [Finset.mem_insert, Finset.mem_Icc, Finset.mem_Icc]
          omega
        rw [arrivals, arrivals, hsplit, Finset.image_insert]
      rw [hnames, hwritten, hcreated, hfirst, Finset.insert_union, Finset.union_insert]

/-- What is listed is taken, up to the capacity. -/
theorem ends_drainListed (capacity : Nat) (names : List Text) {processed : Nat}
    (hle : processed ≤ capacity) (hthere : (s ()).isSome) (hnodup : names.Nodup)
    (hsub : ∀ name ∈ names, name ∈ s.names ()) :
    (drainListed capacity names processed).Ends lone () (fun taken t =>
      taken = processed + min (capacity - processed) names.length ∧ (t ()).isSome ∧
        t.names () = s.names () \ (names.take (capacity - processed)).toFinset) s := by
  induction names generalizing processed s with
  | nil =>
    refine Prog.ends_pure.mpr ⟨by rw [List.length_nil, Nat.min_zero, Nat.add_zero], hthere, ?_⟩
    rw [List.take_nil, List.toFinset_nil, Finset.sdiff_empty]
  | cons name rest ih =>
    unfold drainListed
    -- full before the list ends: the rest is left where it is
    by_cases hfull : capacity ≤ processed
    · rw [if_pos hfull]
      have hnone : capacity - processed = 0 := Nat.sub_eq_zero_of_le hfull
      refine Prog.ends_pure.mpr ⟨by rw [hnone, Nat.zero_min, Nat.add_zero], hthere, ?_⟩
      rw [hnone, List.take_zero, List.toFinset_nil, Finset.sdiff_empty]
    · rw [if_neg hfull]
      obtain ⟨hnew, hnodup⟩ := List.nodup_cons.mp hnodup
      refine Prog.ends_call.mpr fun b t hremove => ?_
      obtain ⟨rfl, hremoved, hthere⟩ := names_remove hthere (hsub name List.mem_cons_self) hremove
      -- what is listed after it still waits, as no name is listed twice
      have hstill : ∀ other ∈ rest, other ∈ t.names () := by
        intro other hother
        rw [hremoved, Finset.mem_sdiff, Finset.mem_singleton]
        refine ⟨hsub other (List.mem_cons_of_mem _ hother), ?_⟩
        rintro rfl
        exact hnew hother
      refine (ih (Nat.lt_of_not_le hfull) hthere hnodup hstill).mono fun taken u hended => ?_
      obtain ⟨rfl, hthere, hnames⟩ := hended
      -- room for one fewer after each removal
      have hroom : capacity - processed = capacity - (processed + 1) + 1 := by omega
      refine ⟨?_, hthere, ?_⟩
      · rw [List.length_cons]
        omega
      · rw [hnames, hremoved, hroom, List.take_succ_cons, List.toFinset_cons, sdiff_sdiff,
          Finset.insert_eq, Finset.sup_eq_union]

/-- A drain takes as many as it may, or all there are. -/
theorem ends_drain (capacity : Nat) (hthere : (s ()).isSome) :
    (drain capacity).Ends lone () (fun processed t =>
    (t ()).isSome ∧ ∃ taken ⊆ s.names (), taken.card = min capacity (s.names ()).card ∧
      processed = taken.card ∧
      t.names () = s.names () \ taken) s := by
  -- the backlog is listed first, each name in it once
  refine Prog.ends_call.mpr fun _ t hdrains => ?_
  obtain rfl : t = s := hdrains
  refine Prog.ends_call.mpr fun b u hlist => ?_
  obtain ⟨rfl, names, rfl, hnodup, hall⟩ := names_list hthere hlist
  have hsub : ∀ name ∈ names, name ∈ u.names () :=
    fun name hname => hall ▸ List.mem_toFinset.mpr hname
  refine (ends_drainListed capacity names (Nat.zero_le _) hthere hnodup hsub).mono
    fun processed v hended => ?_
  obtain ⟨rfl, hthere, hnames⟩ := hended
  rw [Nat.sub_zero] at hnames ⊢
  -- as many listed as wait
  have hlength : names.length = (u.names ()).card := by
    rw [← hall, List.toFinset_card_of_nodup hnodup]
  -- as many removed as the capacity, or all of them
  have hcard : (names.take capacity).toFinset.card = min capacity (u.names ()).card := by
    rw [List.toFinset_card_of_nodup (hnodup.sublist (List.take_sublist _ _)), List.length_take,
      hlength]
  refine ⟨hthere, _, fun name hname => hsub name ?_, hcard, ?_, hnames⟩
  · exact List.mem_of_mem_take (List.mem_toFinset.mp hname)
  · rw [hcard, Nat.zero_add, hlength]

/-- The files are counted to one feeder at the most. -/
def Fed (tag : Nat) (names : Finset Text) : Prop :=
  ∀ name ∈ names, ∀ feeder, feederOf name = some feeder → feeder = decimal tag

private theorem feederOf_arrivalName (tag seq : Nat) :
    feederOf (arrivalName tag seq) = some (decimal tag) := by
  have hdigits : ∀ c ∈ decimal tag, decide (c ≠ '_') = true := by
    intro c hc
    apply decide_eq_true
    rintro rfl
    exact absurd (decimal_isDigit hc) (by decide)
  unfold feederOf arrivalName
  rw [List.append_assoc, if_pos (List.prefix_append _ _)]
  change some (List.takeWhile _ (decimal tag ++ '_' :: padded 8 seq)) = _
  rw [List.takeWhile_append_of_pos hdigits, List.takeWhile_cons_of_neg (by decide), List.append_nil]

/-- Measured are all that wait, over one feeder at the most. -/
theorem ends_measure {tag : Nat} (hthere : (s ()).isSome) (hfed : Fed tag (s.names ())) :
    measure.Ends lone () (fun measured t => t = s ∧ measured.1 = (s.names ()).card ∧
      max measured.2 1 = 1) s := by
  refine Prog.ends_call.mpr fun b t hlist => ?_
  obtain ⟨rfl, names, rfl, hnodup, hall⟩ := names_list hthere hlist
  refine Prog.ends_pure.mpr ⟨rfl, ?_, ?_⟩
  · rw [← hall, List.toFinset_card_of_nodup hnodup]
  · -- Whatever feeders there are, they are the one.
    have hone : (names.filterMap feederOf).dedup.length ≤ 1 := by
      have hsub : (names.filterMap feederOf).dedup ⊆ [decimal tag] := by
        intro feeder hfeeder
        obtain ⟨name, hname, hfound⟩ := List.mem_filterMap.mp (List.mem_dedup.mp hfeeder)
        exact List.mem_singleton.mpr (hfed name (hall ▸ List.mem_toFinset.mpr hname) feeder hfound)
      exact ((List.nodup_dedup _).subperm hsub).length_le
    exact Nat.max_eq_right hone

/-! ### A round -/

/-- What a round may drain. -/
def capacity (r : DailyBacklog) : Nat := r.nodes * r.readers * PER_READER

/-- What stands between the rounds of a drain alone with its directory. -/
structure Kept (tag : Nat) (r : DailyBacklog) (s : Store Unit UInt8) : Prop where
  there : (s ()).isSome
  fed : Fed tag (s.names ())
  tag : r.tag = tag
  readers : r.readers = if r.tweaked then TWEAK_READERS else BASE_READERS
  nodes : r.nodes = if r.scaled then 2 else 1
  ordered : r.scaled = true → r.tweaked = true

/-- The rounds are those of a queue: the tweak is its first remedy and the added node its second. -/
def plan : Escalation.Plan where
  arrival := ARRIVAL
  low := BASE_READERS * PER_READER
  mid := TWEAK_READERS * PER_READER
  high := 2 * TWEAK_READERS * PER_READER
  first := TWEAK_AT
  second := SCALE_AT
  low_le := by decide
  slow := by decide
  fast := by decide

/-- What waits in the directory, and the remedies that came. -/
def queue (r : DailyBacklog) (s : Store Unit UInt8) : Escalation.Queue :=
  ⟨(s.names ()).card, own r.tag r.seq (s.names ()), r.tweaked, r.scaled⟩

private theorem Kept.capacity_eq {tag : Nat} (h : Kept tag r s) :
    r.capacity = plan.capacity (r.queue s) := by
  have hordered := h.ordered
  unfold capacity Escalation.Plan.capacity
  rw [h.readers, h.nodes]
  change _ = if r.scaled = true then _ else if r.tweaked = true then _ else _
  cases hscaled : r.scaled with
  | true =>
    rw [hordered hscaled]
    rfl
  | false =>
    cases r.tweaked with
    | true => rfl
    | false => rfl

private theorem escalate_keeps (r : DailyBacklog) (share : Nat) :
    (r.escalate share).tag = r.tag ∧ (r.escalate share).seq = r.seq ∧
    (r.escalate share).backlog = r.backlog := by
  unfold escalate
  split_ifs
  · exact ⟨rfl, rfl, rfl⟩
  · exact ⟨rfl, rfl, rfl⟩
  · exact ⟨rfl, rfl, rfl⟩

private theorem escalate_tweaked (r : DailyBacklog) (share : Nat) :
    (r.escalate share).tweaked = true ↔ r.tweaked = true ∨ TWEAK_AT < share := by
  unfold escalate
  split_ifs with htweak hscale
  · exact iff_of_true rfl (.inr htweak.2)
  · exact iff_of_true hscale.1 (.inl hscale.1)
  · cases htweaked : r.tweaked with
    | true => exact iff_of_true rfl (.inl rfl)
    | false =>
      rw [htweaked] at htweak
      apply iff_of_false Bool.false_ne_true
      rintro (h | h)
      · exact Bool.false_ne_true h
      · exact htweak ⟨rfl, h⟩

private theorem escalate_scaled (r : DailyBacklog) (share : Nat) :
    (r.escalate share).scaled = true ↔ r.scaled = true ∨ (r.tweaked = true ∧ SCALE_AT < share) := by
  unfold escalate
  split_ifs with htweak hscale
  · -- The round of the tweak adds no node.
    have hnot : r.tweaked ≠ true := by
      intro h
      rw [h] at htweak
      exact Bool.false_ne_true htweak.1
    exact (or_iff_left fun h => hnot h.1).symm
  · exact iff_of_true rfl (.inr ⟨hscale.1, hscale.2.2⟩)
  · cases hscaled : r.scaled with
    | true => exact iff_of_true rfl (.inl rfl)
    | false =>
      rw [hscaled] at hscale
      apply iff_of_false Bool.false_ne_true
      rintro (h | h)
      · exact Bool.false_ne_true h
      · exact hscale ⟨h.1, rfl, h.2⟩

private theorem Kept.escalate {tag : Nat} (h : Kept tag r s) (share : Nat) :
    Kept tag (r.escalate share) s := by
  have hnodes := h.nodes
  have hordered := h.ordered
  unfold DailyBacklog.escalate
  split_ifs with htweak hscale
  · refine { h with readers := rfl, nodes := ?_, ordered := fun _ => rfl }
    exact hnodes
  · refine { h with readers := h.readers, nodes := ?_, ordered := fun _ => hscale.1 }
    -- There was one node before the second.
    have hnot : r.scaled = false := by
      have hnone := hscale.2.1
      rwa [Bool.not_eq_true'] at hnone
    change r.nodes + 1 = 2
    rw [hnodes, hnot]
    rfl
  · exact h

/-- How many wait after so many new ones and a drain. -/
theorem card_drained {waited arrived taken : Finset Text} {capacity : Nat}
    (hsub : taken ⊆ waited ∪ arrived) (htaken : taken.card = min capacity (waited ∪ arrived).card) :
    ∃ new ≤ arrived.card, ((waited ∪ arrived) \ taken).card = waited.card + new - capacity := by
  refine ⟨(arrived \ waited).card, Finset.card_le_card Finset.sdiff_subset, ?_⟩
  have hall : (waited ∪ arrived).card = waited.card + (arrived \ waited).card := by
    rw [Finset.union_comm, ← Finset.card_sdiff_add_card, Nat.add_comm]
  rw [Finset.card_sdiff_of_subset hsub, htaken, hall]
  omega

/-- Arrivals, a drain and an escalation on what is left make a round of the queue. -/
theorem Kept.step {tag : Nat} {counted : DailyBacklog} {t : Store Unit UInt8} {taken : Finset Text}
    (h : Kept tag r s) (hcounted : Kept tag counted t) (hseq : counted.seq = r.seq + ARRIVAL)
    (htweaked : counted.tweaked = r.tweaked) (hscaled : counted.scaled = r.scaled)
    (hsub : taken ⊆ s.names () ∪ arrivals r.tag (r.seq + 1) (r.seq + ARRIVAL))
    (htaken : taken.card = min r.capacity
      (s.names () ∪ arrivals r.tag (r.seq + 1) (r.seq + ARRIVAL)).card)
    (hleft : t.names () = (s.names () ∪ arrivals r.tag (r.seq + 1) (r.seq + ARRIVAL)) \ taken) :
    Escalation.Step plan (r.queue s) ((counted.escalate (t.names ()).card).queue t) := by
  obtain ⟨htag', hseq', -⟩ := escalate_keeps counted (t.names ()).card
  have htag : counted.tag = r.tag := hcounted.tag.trans h.tag.symm
  refine ⟨?_, ?_, ?_, ?_, ?_⟩
  · -- those new in the backlog are of this round's arrivals
    obtain ⟨new, hnew, hcard⟩ := card_drained hsub htaken
    rw [card_arrivals] at hnew
    refine ⟨new, hnew.trans (by change _ ≤ ARRIVAL; omega), ?_⟩
    rw [← h.capacity_eq]
    change (t.names ()).card = _
    rw [hleft]
    exact hcard
  · -- its own: the arrivals come on top, and each one taken makes room
    rw [← h.capacity_eq]
    change own r.tag r.seq (s.names ()) + ARRIVAL ≤ own _ _ (t.names ()) + r.capacity
    rw [htag', hseq', htag, hseq]
    calc own r.tag r.seq (s.names ()) + ARRIVAL
        ≤ own r.tag (r.seq + ARRIVAL) (s.names () ∪ arrivals r.tag (r.seq + 1) (r.seq + ARRIVAL)) :=
        own_arrivals ..
      _ ≤ own r.tag (r.seq + ARRIVAL) (t.names ()) + taken.card := by
        rw [hleft]
        exact own_sdiff ..
      _ ≤ own r.tag (r.seq + ARRIVAL) (t.names ()) + r.capacity := by
        rw [htaken]
        exact Nat.add_le_add_left (Nat.min_le_left ..) _
  · show own _ _ (t.names ()) ≤ (t.names ()).card
    exact own_le ..
  · -- readers are raised once the backlog passes the first mark, and stay raised
    change _ ↔ r.tweaked = true ∨ TWEAK_AT < (t.names ()).card
    rw [← htweaked]
    exact escalate_tweaked counted _
  · -- a node is added once, after that, it passes the second
    change _ ↔ r.scaled = true ∨ (r.tweaked = true ∧ SCALE_AT < (t.names ()).card)
    rw [← hscaled, ← htweaked]
    exact escalate_scaled counted _

/-- **A round of a drain alone** is one of the queue. -/
theorem ends_tick {S : Type} [Snapshot S] {tag : Nat} (h : Kept tag r s) :
    (r.tick : Prog BacklogOp (S × DailyBacklog)).Ends lone () (fun result t =>
      Kept tag result.2 t ∧ Escalation.Step plan (r.queue s) (result.2.queue t) ∧
        result.2.backlog = (t.names ()).card) s := by
  -- a round: arrive, drain, measure, escalate
  refine Prog.ends_call.mpr fun now t hnow => ?_
  obtain rfl : t = s := hnow
  refine (ends_arrive (r := { r with round := r.round + 1 }) ARRIVAL h.there).bind
    fun r' u harrived => ?_
  obtain ⟨rfl, hthere, harrivals⟩ := harrived
  refine (ends_drain _ hthere).bind fun processed v hdrained => ?_
  obtain ⟨hthere, taken, hsub, htaken, hprocessed, hleft⟩ := hdrained
  rw [harrivals] at hsub htaken hleft
  -- what waits after is fed by this node: it waited before, or is one of its arrivals
  have hfed : Fed tag (v.names ()) := by
    intro name hname
    rw [hleft] at hname
    rcases Finset.mem_union.mp (Finset.mem_sdiff.mp hname).1 with hwaited | hnew
    · exact h.fed name hwaited
    · obtain ⟨seq, -, rfl⟩ := Finset.mem_image.mp hnew
      intro feeder hfeeder
      rw [feederOf_arrivalName] at hfeeder
      rw [← Option.some.inj hfeeder]
      exact congrArg decimal h.tag
  refine (ends_measure hthere hfed).bind fun measured w hmeasured => ?_
  obtain ⟨rfl, hbacklog, hone⟩ := hmeasured
  refine Prog.ends_pure.mpr ?_
  rw [hone, Nat.div_one, hbacklog]
  have hcounted : Kept tag { r with
      round := r.round + 1
      seq := r.seq + ARRIVAL
      backlog := (w.names ()).card
      feeders := measured.2
      drained := r.drained + processed } w := { h with there := hthere, fed := hfed }
  have hjudged := hcounted.escalate (w.names ()).card
  refine ⟨{ hjudged with }, h.step hcounted rfl rfl rfl hsub htaken hleft, ?_⟩
  exact (escalate_keeps _ _).2.2

private theorem card_names (s : Store Unit UInt8) : (s.names ()).card = s.count () := by
  unfold Store.names Store.count
  cases s () with
  | none => rfl
  | some dir => exact List.toFinset_card_of_nodup dir.keys_nodup

/-! ### Every run -/

/-- A drain starts with neither remedy, whatever waits. -/
theorem ends_shared (node : Text) {tag : Nat} (hfed : Fed tag (s.names ())) :
    (shared node tag).Ends lone () (fun r t => Kept tag r t ∧ r.tweaked = false ∧ r.scaled = false)
      s := by
  refine Prog.ends_call.mpr fun b t hmade => Prog.ends_pure.mpr ?_
  obtain ⟨hnames, hthere⟩ := names_makeDir hmade
  refine ⟨⟨hthere, ?_, rfl, rfl, rfl, fun h => h⟩, rfl, rfl⟩
  rwa [hnames]

/-- When the remedies come to a drain: readers are raised in round `tweak` and stay so, and one node
is added in round `node` and stays, each once. -/
structure Remedies (r : Nat → DailyBacklog) (tweak node : Nat) : Prop where
  begun : 0 < tweak
  before : tweak < node
  tweaked : ∀ n, (r n).tweaked = true ↔ tweak ≤ n
  scaled : ∀ n, (r n).scaled = true ↔ node ≤ n
  readers : ∀ n, (r n).readers = if tweak ≤ n then TWEAK_READERS else BASE_READERS
  nodes : ∀ n, (r n).nodes = if node ≤ n then 2 else 1

/-- A drain recovers: the node is added by the fifth round, and from then on the backlog falls each
round until nothing waits, and nothing waits after that. -/
structure Recovers (r : Nat → DailyBacklog) (waiting : Nat → Nat) : Prop where
  remedies : ∃ tweak node, Remedies r tweak node ∧ node ≤ 5 ∧
    (∀ n ≥ node, waiting (n + 1) < waiting n ∨ (waiting n = 0 ∧ waiting (n + 1) = 0)) ∧
    ∃ last ≥ node, ∀ n ≥ last, waiting n = 0
  capacity_mono : Monotone fun n => (r n).capacity
  capacity_le : ∀ n, (r n).capacity ≤ 2 * (TWEAK_READERS * PER_READER)
  measured : ∀ n, (r (n + 1)).backlog = waiting (n + 1)

/-- **A lone backlog recovers**, whatever waits at first. -/
theorem backlog_recovers {S : Type} [Snapshot S] (node : Text) (tag : Nat)
    (store : Store Unit UInt8) (r : Nat → DailyBacklog) (s : Nat → Store Unit UInt8)
    (hfed : ∀ name, (store.file () name).isSome → ∀ feeder, feederOf name = some feeder →
      feeder = decimal tag)
    (hstart : (shared node tag).Runs lone () store (r 0) (s 0))
    (hrun : ∀ n, ∃ snapshot : S, (r n).tick.Runs lone () (s n) (snapshot, r (n + 1)) (s (n + 1))) :
    Recovers r fun n => (s n).count () := by
  obtain ⟨hkept, htweaked, hscaled⟩ :=
    ends_shared node (fun name hname => hfed name (Store.mem_names.mp hname)) _ _ hstart
  -- what is kept makes one round a step of the plan's queue
  have hround (n : Nat) (h : Kept tag (r n) (s n)) :
      Kept tag (r (n + 1)) (s (n + 1)) ∧
      Escalation.Step plan ((r n).queue (s n)) ((r (n + 1)).queue (s (n + 1))) ∧
        (r (n + 1)).backlog = ((s (n + 1)).names ()).card := by
    obtain ⟨snapshot, hruns⟩ := hrun n
    exact ends_tick h _ _ hruns
  -- and so it is kept throughout
  have hall (n : Nat) : Kept tag (r n) (s n) := by
    induction n with
    | zero => exact hkept
    | succ n ih => exact (hround n ih).1
  have hsteps (n : Nat) := (hround n (hall n)).2.1
  have hwaiting (n : Nat) : (s n).count () = ((r n).queue (s n)).waiting := (card_names _).symm
  -- the abstract course: when the readers are raised, when a node is added, and that both come soon
  obtain ⟨tweak, node, hcourse, hsoon⟩ :=
    Escalation.Course.of_run (n := 3) hsteps htweaked hscaled (by decide) (by decide)
  have hadded (n : Nat) (hn : node ≤ n) : ((r n).queue (s n)).added = true :=
    (hcourse.added n).mpr hn
  refine ⟨⟨tweak, node, ?_, hsoon, fun n hn => ?_, ?_⟩, ?_, fun n => ?_, fun n => ?_⟩
  · -- what the queue says of its course is what the drain's readers and nodes say
    refine ⟨hcourse.begun, hcourse.before, hcourse.raised, hcourse.added, fun n => ?_, fun n => ?_⟩
    · rw [(hall n).readers]
      exact if_congr (hcourse.raised n) rfl rfl
    · rw [(hall n).nodes]
      exact if_congr (hcourse.added n) rfl rfl
  · -- from the added node on every round takes more than arrives
    simp only [hwaiting]
    exact (hsteps n).falls (hadded n hn)
  · simp only [hwaiting]
    exact Escalation.cleared hsteps hadded
  · -- the capacity is the queue's, which never falls
    apply monotone_nat_of_le_succ
    intro n
    rw [(hall n).capacity_eq, (hall (n + 1)).capacity_eq]
    exact (hsteps n).capacity_mono
  · rw [(hall n).capacity_eq]
    exact plan.capacity_le_high _
  · rw [hwaiting]
    exact (hround n (hall n)).2.2

private theorem lone_total : lone.Total := by
  intro i β op s
  cases op with
  | file op => exact op.exists_does s
  | now => exact ⟨0, s, rfl⟩
  | drains capacity => exact ⟨(), s, rfl⟩

/-- Some run of a drain, round after round. -/
theorem exists_rounds (S : Type) [Snapshot S] (node : Text) (tag : Nat) (store : Store Unit UInt8) :
    ∃ (r : Nat → DailyBacklog) (s : Nat → Store Unit UInt8),
      (shared node tag).Runs lone () store (r 0) (s 0) ∧
      ∀ n, ∃ snapshot : S, (r n).tick.Runs lone () (s n) (snapshot, r (n + 1)) (s (n + 1)) := by
  obtain ⟨r, s, hstart⟩ := Prog.exists_runs lone_total (i := ()) (shared node tag) store
  choose next left hnext using fun x : DailyBacklog × Store Unit UInt8 =>
    Prog.exists_runs (i := ()) lone_total (x.1.tick : Prog BacklogOp (S × DailyBacklog)) x.2
  let x := fun n => (fun x => ((next x).2, left x))^[n] (r, s)
  refine ⟨fun n => (x n).1, fun n => (x n).2, hstart, fun n => ⟨(next (x n)).1, ?_⟩⟩
  have hx : x (n + 1) = ((next (x n)).2, left (x n)) := Function.iterate_succ_apply' _ _ _
  show Prog.Runs lone () (x n).1.tick (x n).2 ((next (x n)).1, (x (n + 1)).1) (x (n + 1)).2
  rw [hx]
  exact hnext (x n)

/-- A directory where one of a drain's own files waits already. -/
def oneWaits : Store Unit UInt8 := Store.empty.set () (AList.singleton (arrivalName 7 2) [])

theorem backlog_recovers_one : ∃ (r : Nat → DailyBacklog) (s : Nat → Store Unit UInt8),
    (shared ['n'] 7).Runs lone () oneWaits (r 0) (s 0) ∧ Recovers r fun n => (s n).count () := by
  obtain ⟨r, s, hstart, hrun⟩ := exists_rounds Records ['n'] 7 oneWaits
  refine ⟨r, s, hstart, backlog_recovers ['n'] 7 oneWaits r s ?_ hstart hrun⟩
  intro name hname feeder hfeeder
  have honly : oneWaits.names () = {arrivalName 7 2} := rfl
  rw [← Store.mem_names, honly, Finset.mem_singleton] at hname
  rw [hname, feederOf_arrivalName] at hfeeder
  exact (Option.some.inj hfeeder).symm

end XmipEssentials.DailyBacklog
