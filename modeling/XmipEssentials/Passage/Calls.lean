import XmipEssentials.Passage.Net

/-!
# What each call keeps

Every call of a relay keeps what holds between any two calls (`Good`), and moves nothing of the
other relays' (`Move`): the files a relay touches are those it delivers, whose names say its own,
and those of its own inbox that no one is writing.
-/

namespace XmipEssentials

open Text Conc Files Inbox

/-! ### Whose file is whose -/

/-- The files a relay may touch: those it delivers, and those of its own inbox, but for what others
are writing there. -/
def Touches (i d : Inbox) (name : Text) : Prop :=
  (∃ handoff sequence ext, Carries i handoff ∧ i.2.next = some d.2 ∧ (ext = writing ∨ ext = ready) ∧
    name = handoff.fileName sequence ++ '.' :: ext) ∨ (d = i ∧ extension name ≠ some writing)

/-- What a relay's call leaves of the others'. -/
structure Move (i : Inbox) (s s' : Net) : Prop where
  files : ∀ d name, ¬Touches i d name → s'.store.file d name = s.store.file d name
  own : ∀ j, j ≠ i → s'.own j = s.own j
  grown : s.log <:+ s'.log

/-- A node's process started again. -/
def Net.again (s : Net) (name : Text) : Net :=
  { s with lives := Function.update s.lives name (s.lives name + 1) }

variable {w : Ways} {s s' : Net} {i j : Inbox} {handoff handoff' : Handoff}
    {sequence sequence' : Nat}

/-- A file's name tells its extension. -/
theorem extension_fileName {ext : Text} (hext : ext = writing ∨ ext = ready) :
    extension (handoff.fileName sequence ++ '.' :: ext) = some ext := by
  rcases hext with rfl | rfl
  · exact handoff.extension_writing sequence
  · exact handoff.extension_ready sequence

/-- A file that waits, or that is being written, was delivered by one relay only, and at one
count. -/
theorem fileName_at {d : Inbox} {ext ext' : Text} (hi : Carries i handoff) (hj : Carries j handoff')
    (hnext : i.2.next = some d.2) (hnext' : j.2.next = some d.2)
    (hext : ext = writing ∨ ext = ready)
    (hext' : ext' = writing ∨ ext' = ready)
    (heq : handoff.fileName sequence ++ '.' :: ext = handoff'.fileName sequence' ++ '.' :: ext') :
    i = j ∧ sequence = sequence' ∧ handoff.round = handoff'.round ∧
    handoff.transport = handoff'.transport ∧
      handoff.contract = handoff'.contract := by
  have hsame : ext = ext' := by
    have hexts := congrArg extension heq
    rw [extension_fileName hext, extension_fileName hext'] at hexts
    exact Option.some.inj hexts
  subst hsame
  have hname := List.append_cancel_right heq
  obtain ⟨hround, hsender, hsequence, htransport, hcontract⟩ :=
    Handoff.fileName_injective hi.token hj.token hname
  refine ⟨Prod.ext ?_ (Stage.next_injective hnext hnext'), hsequence, hround, htransport, hcontract⟩
  rw [← hi.sender, hsender, hj.sender]

/-- No other relay touches what a relay is writing. -/
theorem not_touches_writing {d : Inbox} (hi : Carries i handoff) (hnext : i.2.next = some d.2)
    (hne : j ≠ i) :
    ¬Touches j d (handoff.fileName sequence ++ '.' :: writing) := by
  rintro (⟨handoff', sequence', ext, hj, hnext', hext, heq⟩ | ⟨-, hnot⟩)
  · exact hne (fileName_at hi hj hnext hnext' (.inl rfl) hext heq).1.symm
  · exact hnot (handoff.extension_writing sequence)

/-- No other relay touches what a relay has claimed. -/
theorem not_touches_claimed {name : Text} (hwriting : extension name ≠ some writing)
    (hready : extension name ≠ some ready) (hne : j ≠ i) : ¬Touches j i name := by
  rintro (⟨handoff', sequence', ext, -, -, hext, rfl⟩ | ⟨rfl, -⟩)
  · rw [extension_fileName hext] at hwriting hready
    rcases hext with rfl | rfl
    · exact hwriting rfl
    · exact hready rfl
  · exact hne rfl

/-! ### Calls that show nothing -/

theorem Move.refl : Move i s s := ⟨fun _ _ _ => rfl, fun _ _ => rfl, List.suffix_rfl⟩

/-- What is left where no handoff comes or goes. -/
theorem Good.leave {store : Store Inbox UInt8} (h : Good w s)
    (hlies : ∀ d name, lies store d name = lies s.store d name) : Good w (s.leave store) where
  counted d := (h.counted d).trans (by rw [Net.leave, waits_congr (hlies d)]; rfl)
  content d name c hc := h.content d name c ((hlies d name).symm.trans hc)
  sound := h.sound
  lived := h.lived
  apart := h.apart
  decoded := h.decoded
  ordered := h.ordered
  told := h.told

/-- A call that touches no more than it may, and nothing that waits. -/
theorem Good.quiet {store : Store Inbox UInt8} (h : Good w s)
    (hsame : ∀ d name, (Touches i d name → extension name = some ready) →
      store.file d name = s.store.file d name) :
    Good w (s.leave store) ∧ Move i s (s.leave store) := by
  refine ⟨h.leave fun d name => ?_,
    ⟨fun d name hnot => hsame d name fun ht => absurd ht hnot, fun _ _ => rfl, List.suffix_rfl⟩⟩
  unfold lies
  split_ifs with hready
  · exact hsame d name fun _ => hready
  · rfl

/-- One file put, which the relay may touch and which does not wait. -/
theorem Good.puts {store : Store Inbox UInt8} {d : Inbox} {name : Text} {c : Option (List UInt8)}
    (h : Good w s) (hputs : s.store.Puts d name c store) (htouch : Touches i d name)
    (hready : extension name ≠ some ready) :
    Good w (s.leave store) ∧ Move i s (s.leave store) := by
  refine h.quiet fun d' name' hno => hputs.other ?_
  rintro ⟨rfl, rfl⟩
  exact hready (hno htouch)

/-! ### Calls that are seen -/

/-- **What is seen is good** where the handoffs still count up, and what it says is so. -/
theorem Good.push {store : Store Inbox UInt8} {event : Event} (h : Good w s)
    (hcounted : ∀ d, (((s.leave store).push i event).given d : Multiset Text) =
      (((s.leave store).push i event).claimed d : Multiset Text) + (waits store d).val)
    (hcontent : ∀ d name c, lies store d name = some c → lies s.store d name = some c ∨
      ∃ g stood, event = .given g stood ∧ g.dest = d ∧ g.name = name ∧ g.handoff.encode = c)
    (hsound : event.Apt w i)
    (hkey : ∀ g stood, event = .given g stood → ∀ g' ∈ Event.gifts (s.own i), g'.sequence ≠
      g.sequence)
    (hdecoded : ¬w.fails → ∀ name found, event = .decoded name found →
      ∃ g, s.Gives g ∧ g.dest = i ∧ g.name = name ∧ found = some g.handoff)
    (hordered : Event.Ordered (event :: s.own i)) (htold : ¬w.resumes →
      Event.Accounted (event :: s.own i)) :
    Good w ((s.leave store).push i event) where
  counted := hcounted
  content d name c hc := by
    -- what lies at a name was there before, or is this event's gift
    rcases hcontent d name c hc with hold | ⟨g, stood, rfl, hat⟩
    · obtain ⟨g, hrecent, hat⟩ := h.content d name c hold
      exact ⟨g, hrecent.push (s := s.leave store), hat⟩
    · exact ⟨g, Net.recent_given (s := s.leave store), hat⟩
  sound := List.forall_mem_cons.mpr ⟨hsound, h.sound⟩
  lived := List.forall_mem_cons.mpr ⟨le_rfl, h.lived⟩
  apart := by
    change (List.filterMap Entry.key (_ :: s.log)).Nodup
    rw [List.filterMap_cons]
    -- a gift's key is of its sender, its life and its count, and the count is new
    cases event with
    | given g stood =>
      refine List.nodup_cons.mpr ⟨fun hmem => ?_, h.apart⟩
      obtain ⟨g', hg', hsame⟩ := Net.mem_keys.mp hmem
      exact hkey g stood rfl g' hg' hsame
    | claimed | decoded | judged | verdict | routed => exact h.apart
  decoded hf := by
    refine List.forall_mem_cons.mpr ⟨fun name found hevent => ?_, fun e he name found hevent => ?_⟩
    · obtain ⟨g, hgives, hat⟩ := hdecoded hf name found hevent
      exact ⟨g, Net.gives_push.mpr (.inr hgives), hat⟩
    · obtain ⟨g, hgives, hat⟩ := h.decoded hf e he name found hevent
      exact ⟨g, Net.gives_push.mpr (.inr hgives), hat⟩
  ordered j life := by
    -- of the worker's own life the event comes on top; any other list is untouched
    by_cases hat : j = i ∧ life = s.lives i.1
    · obtain ⟨rfl, rfl⟩ := hat
      exact (Net.of_push_self (s := s.leave store)).symm ▸ hordered
    · rw [Net.of_push_of_ne (s := s.leave store) hat]
      exact h.ordered j life
  told hr j life := by
    by_cases hat : j = i ∧ life = s.lives i.1
    · obtain ⟨rfl, rfl⟩ := hat
      exact (Net.of_push_self (s := s.leave store)).symm ▸ htold hr
    · rw [Net.of_push_of_ne (s := s.leave store) hat]
      exact h.told hr j life

private theorem Move.push {event : Event} {store : Store Inbox UInt8}
    (h : ∀ d name, ¬Touches i d name → store.file d name = s.store.file d name) :
    Move i s ((s.leave store).push i event) :=
  ⟨h, fun _ hne => Net.own_push_of_ne hne, List.suffix_cons _ _⟩

/-- What a relay says of itself, the store as it was. -/
theorem Good.says {event : Event} (h : Good w s) (hgiven : ∀ g stood, event ≠ .given g stood)
    (hclaimed : ∀ dir name, event ≠ .claimed dir name) (hsound : event.Apt w i)
    (hdecoded : ¬w.fails → ∀ name found, event = .decoded name found →
      ∃ g, s.Gives g ∧ g.dest = i ∧ g.name = name ∧ found = some g.handoff)
    (hordered : Event.Ordered (event :: s.own i)) (htold : ¬w.resumes →
      Event.Accounted (event :: s.own i)) :
    Good w (s.push i event) ∧ Move i s (s.push i event) := by
  have hmove : Move i s ((s.leave s.store).push i event) := Move.push fun _ _ _ => rfl
  suffices hgood : Good w ((s.leave s.store).push i event) from ⟨hgood, hmove⟩
  refine h.push (fun d => ?_) (fun _ _ _ hc => .inl hc) hsound
    (fun g stood hevent => absurd hevent (hgiven g stood)) hdecoded hordered htold
  cases event with
  | given g stood => exact absurd rfl (hgiven g stood)
  | claimed dir name => exact absurd rfl (hclaimed dir name)
  | decoded | judged | verdict | routed => exact h.counted d

/-! ### A handoff given over -/

/-- **Nothing waits under the name of the next delivery**: what waits is of processes that run, and
of this relay's it is at another count. -/
theorem Good.vacant {d : Inbox} (h : Good w s) (hcarries : Carries i handoff)
    (hbound : Bound w i handoff d) (hfresh : ∀ g ∈ Event.gifts (s.own i), g.sequence ≠ sequence) :
    lies s.store d (handoff.fileName sequence ++ '.' :: ready) = none := by
  by_contra hsome
  obtain ⟨c, hc⟩ := Option.ne_none_iff_exists'.mp hsome
  obtain ⟨g, ⟨e, he, hlife, stood, hevent⟩, rfl, hname, -⟩ := h.content d _ c hc
  have hsound := h.sound e he
  rw [hevent] at hsound
  obtain ⟨hcarries', hbound', -⟩ := hsound
  obtain ⟨hplace, hsequence, -⟩ :=
    fileName_at hcarries' hcarries hbound'.next hbound.next (.inr rfl) (.inr rfl) hname
  rw [hplace] at hlife
  have hmine : Event.given g stood ∈ s.own i := Net.mem_of.mpr ⟨e, he, hplace, hlife, hevent⟩
  exact hfresh g (Event.mem_gifts.mpr ⟨stood, hmine⟩) hsequence

/-- The store with what was written renamed into place. -/
theorem lies_moved {d : Inbox} {store : Store Inbox UInt8} {old new : Text} {c : List UInt8}
    (hold : extension old ≠ some ready) (hnew : extension new = some ready)
    (hmoved : ∀ d' name, store.file d' name = if d' = d ∧ name = new then some c
      else if d' = d ∧ name = old then none else s.store.file d' name) (d' : Inbox) (name : Text) :
    lies store d' name = if d' = d ∧ name = new then some c else lies s.store d' name := by
  unfold lies
  by_cases hready : extension name = some ready
  · have hne : ¬(d' = d ∧ name = old) := by
      rintro ⟨-, rfl⟩
      exact hold hready
    rw [if_pos hready, if_pos hready, hmoved, if_neg hne]
  · have hne : ¬(d' = d ∧ name = new) := by
      rintro ⟨-, rfl⟩
      exact hready hnew
    rw [if_neg hready, if_neg hready, if_neg hne]

/-- **A handoff is given over**: one more waits, and none is lost. -/
theorem Good.gives {d : Inbox} {store : Store Inbox UInt8} (h : Good w s)
    (hcarries : Carries i handoff) (hbound : Bound w i handoff d)
    (hfresh : ∀ g ∈ Event.gifts (s.own i), g.sequence ≠ sequence)
    (hpending : ¬w.resumes → Event.pending (s.own i) = none)
    (hmoved : ∀ d' name, store.file d' name =
      if d' = d ∧ name = handoff.fileName sequence ++ '.' :: ready then some handoff.encode
      else if d' = d ∧ name = handoff.fileName sequence ++ '.' :: writing then none
        else s.store.file d' name) :
    (s.store.file d (handoff.fileName sequence ++ '.' :: ready)).isSome = false ∧
      Good w ((s.leave store).push i (.given ⟨d, handoff, sequence⟩ false)) ∧
      Move i s ((s.leave store).push i (.given ⟨d, handoff, sequence⟩ false)) := by
  -- the name delivered under is ready, the one written under is not
  have hnew : extension (handoff.fileName sequence ++ '.' :: ready) = some ready :=
    handoff.extension_ready sequence
  have hold : extension (handoff.fileName sequence ++ '.' :: writing) ≠ some ready := by
    rw [handoff.extension_writing sequence]
    decide
  have hvacant := h.vacant hcarries hbound hfresh
  have hlies := lies_moved hold hnew hmoved
  refine ⟨?_, ?_, Move.push fun d' name hnot => ?_⟩
  · rw [lies, if_pos hnew] at hvacant
    rw [hvacant]
    rfl
  · refine h.push (fun d' => ?_) (fun d' name c hc => ?_) ⟨hcarries, hbound, rfl⟩
      (fun g stood hevent => ?_) (fun _ _ _ hevent => by cases hevent) ⟨?_, ?_⟩
      fun hr => ⟨hpending hr, ?_⟩
    · -- one name given and one more waiting, in the inbox it was given to
      have hcounted := h.counted d'
      by_cases hd : d' = d
      · subst hd
        have hwaits : waits store d' = insert (handoff.fileName sequence ++ '.' :: ready)
          (waits s.store d') := by
          ext name
          rw [mem_waits, hlies, Finset.mem_insert, mem_waits]
          by_cases hname : name = handoff.fileName sequence ++ '.' :: ready
          · rw [if_pos ⟨rfl, hname⟩]
            exact iff_of_true rfl (.inl hname)
          · rw [if_neg fun hat => hname hat.2]
            exact (or_iff_right hname).symm
        -- the name was vacant, so it is one more
        have hnot : handoff.fileName sequence ++ '.' :: ready ∉ waits s.store d' := by
          rw [mem_waits, hvacant]
          exact Bool.false_ne_true
        rw [Net.given_push_given, if_pos rfl, hwaits, Finset.insert_val_of_notMem hnot,
          Multiset.add_cons]
        exact congrArg (Multiset.cons _) hcounted
      · have hsame : waits store d' = waits s.store d' :=
          waits_congr fun name => by rw [hlies, if_neg fun hat => hd hat.1]
        rw [Net.given_push_given, if_neg (Ne.symm hd), hsame]
        exact hcounted
    · rw [hlies] at hc
      split_ifs at hc with hat
      · obtain ⟨rfl, rfl⟩ := hat
        exact .inr ⟨_, _, rfl, rfl, rfl, Option.some.inj hc⟩
      · exact .inl hc
    · cases hevent
      exact hfresh
    · exact (h.ordered i _).decoded
    · exact (h.ordered i _).judged
    · exact h.told hr i _
  · -- all the names touched are the two of this delivery
    rw [hmoved, if_neg, if_neg]
    · rintro ⟨rfl, rfl⟩
      exact hnot (.inl ⟨handoff, sequence, writing, hcarries, hbound.next, .inl rfl, rfl⟩)
    · rintro ⟨rfl, rfl⟩
      exact hnot (.inl ⟨handoff, sequence, ready, hcarries, hbound.next, .inr rfl, rfl⟩)

/-! ### A handoff claimed -/

/-- **A handoff is claimed**: it waits no more, and is counted once. -/
theorem Good.takes {name mine : Text} {store : Store Inbox UInt8} {c : List UInt8} (h : Good w s)
    (hready : extension name = some ready) (hmine : extension mine ≠ some ready)
    (hwriting : extension mine ≠ some writing) (hfile : s.store.file i name = some c)
    (hsettled : Event.decodes (s.own i) = Event.claims (s.own i))
    (hmoved : ∀ d' name', store.file d' name' = if d' = i ∧ name' = mine then some c
      else if d' = i ∧ name' = name then none else s.store.file d' name') :
    Good w ((s.leave store).push i (.claimed i name)) ∧
      Move i s ((s.leave store).push i (.claimed i name)) := by
  -- one ready name gone, and no other changed: the name taken is not ready
  have hlies (d' : Inbox) (name' : Text) :
      lies store d' name' = if d' = i ∧ name' = name then none else lies s.store d' name' := by
    unfold lies
    by_cases hready' : extension name' = some ready
    · have hne : ¬(d' = i ∧ name' = mine) := by
        rintro ⟨-, rfl⟩
        exact hmine hready'
      rw [if_pos hready', if_pos hready', hmoved, if_neg hne]
    · rw [if_neg hready', if_neg hready', ite_self]
  have hwas : name ∈ waits s.store i := by
    rw [mem_waits, lies, if_pos hready, hfile]
    rfl
  refine ⟨?_, Move.push fun d' name' hnot => ?_⟩
  · refine h.push (fun d' => ?_) (fun d' name' c' hc => .inl ?_)
      rfl (fun _ _ hevent => by cases hevent)
      (fun _ _ _ hevent => by cases hevent) ⟨?_, (h.ordered i _).judged⟩ fun hr => h.told hr i _
    · -- one name claimed, and one fewer waiting
      have hcounted := h.counted d'
      by_cases hd : d' = i
      · subst hd
        have hwaits : waits store d' = (waits s.store d').erase name := by
          ext name'
          rw [mem_waits, hlies, Finset.mem_erase, mem_waits]
          by_cases hname : name' = name
          · rw [if_pos ⟨rfl, hname⟩]
            exact iff_of_false Bool.false_ne_true fun hat => hat.1 hname
          · rw [if_neg fun hat => hname hat.2]
            exact (and_iff_right hname).symm
        rw [Net.claimed_push_claimed, if_pos rfl, hwaits, ← Multiset.cons_coe, Multiset.cons_add,
          ← Multiset.add_cons, Finset.erase_val, Multiset.cons_erase hwas]
        exact hcounted
      · have hsame : waits store d' = waits s.store d' :=
          waits_congr fun name' => by rw [hlies, if_neg fun hat => hd hat.1]
        rw [Net.claimed_push_claimed, if_neg (Ne.symm hd), hsame]
        exact hcounted
    · rw [hlies] at hc
      split_ifs at hc
      exact hc
    · exact hsettled ▸ List.suffix_cons _ _
  · -- all the names touched are the claimer's, in its own inbox
    rw [hmoved, if_neg, if_neg]
    · rintro ⟨rfl, rfl⟩
      refine hnot (.inr ⟨rfl, ?_⟩)
      rw [hready]
      decide
    · rintro ⟨rfl, rfl⟩
      exact hnot (.inr ⟨rfl, hwriting⟩)

/-- **What a claimed file read back as** is said once, and is what was given over. -/
theorem Good.reads {name : Text} {found : Option Handoff} {l : List Event} (h : Good w s)
    (hown : s.own i = .claimed i name :: l) (hsettled : Event.decodes l = Event.claims l)
    (hreads : ¬w.fails → ∃ g, s.Gives g ∧ g.dest = i ∧ g.name = name ∧ found = some g.handoff) :
    Good w (s.push i (.decoded name found)) ∧ Move i s (s.push i (.decoded name found)) := by
  have hbefore : Event.Ordered (s.own i) := h.ordered i _
  -- what is read is what was claimed last
  have hordered : Event.Ordered (.decoded name found :: s.own i) := by
    refine ⟨?_, ?_⟩
    · rw [hown]
      change name :: Event.decodes l <:+ name :: Event.claims l
      rw [hsettled]
    · apply hbefore.judged.trans
      cases found with
      | none => exact List.suffix_rfl
      | some handoff => exact List.suffix_cons _ _
  have htold (hr : ¬w.resumes) : Event.Accounted (.decoded name found :: s.own i) := by
    change Event.Accounted (s.own i)
    exact h.told hr i _
  refine h.says (fun _ _ heq => by cases heq) (fun _ _ heq => by cases heq) trivial ?_ hordered
    htold
  intro hf name' found' heq
  obtain ⟨rfl, rfl⟩ := Event.decoded.inj heq
  exact hreads hf

/-- **A claimed handoff is judged** in its turn. -/
theorem Good.judges {l : List Handoff} (h : Good w s)
    (hfound : Event.found (s.own i) = l ++ handoff :: Event.judgedOf (s.own i)) :
    Good w (s.push i (.judged handoff)) ∧ Move i s (s.push i (.judged handoff)) := by
  have hordered : Event.Ordered (.judged handoff :: s.own i) :=
    ⟨(h.ordered i _).decoded, ⟨l, hfound.symm⟩⟩
  have htold (hr : ¬w.resumes) : Event.Accounted (.judged handoff :: s.own i) := by
    change Event.Accounted (s.own i)
    exact h.told hr i _
  exact h.says (fun _ _ heq => by cases heq) (fun _ _ heq => by cases heq) trivial
    (fun _ _ _ heq => by cases heq) hordered htold

/-- **A verdict** is of the pair given over, where one was, and then that it delivered. -/
theorem Good.concludes {v : Verdict} (h : Good w s)
    (hverdict : ¬w.resumes → ∀ h, Event.pending (s.own i) = some h →
      v.outcome = .delivered ∧ v.transport = h.transport ∧ v.contract = h.contract) :
    Good w (s.push i (.verdict v)) ∧ Move i s (s.push i (.verdict v)) := by
  have hordered : Event.Ordered (.verdict v :: s.own i) :=
    ⟨(h.ordered i _).decoded, (h.ordered i _).judged⟩
  exact h.says (fun _ _ heq => by cases heq) (fun _ _ heq => by cases heq) trivial
    (fun _ _ _ heq => by cases heq) hordered fun hr => ⟨hverdict hr, h.told hr i _⟩

/-- A handoff of the node's is routed. -/
theorem Good.routes (h : Good w s) (hcarries : Carries i handoff) :
    Good w (s.push i (.routed handoff)) ∧ Move i s (s.push i (.routed handoff)) := by
  have hordered : Event.Ordered (.routed handoff :: s.own i) :=
    ⟨(h.ordered i _).decoded, (h.ordered i _).judged⟩
  have htold (hr : ¬w.resumes) : Event.Accounted (.routed handoff :: s.own i) := by
    change Event.Accounted (s.own i)
    exact h.told hr i _
  exact h.says (fun _ _ heq => by cases heq) (fun _ _ heq => by cases heq) hcarries
    (fun _ _ _ heq => by cases heq) hordered htold

end XmipEssentials
