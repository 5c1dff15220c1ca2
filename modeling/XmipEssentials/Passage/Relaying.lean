import XmipEssentials.Passage.Calls
import XmipEssentials.Relay

/-!
# A relay among the others

What a relay's programs come to while the other relays make their calls, and while other nodes are
killed and started again: each delivery, each claim and each round keeps the relay's own counts with
what it is seen to do (`Accounts`).
-/

namespace XmipEssentials

open Text Conc Files Inbox

namespace Net

/-- The proof outline of the relays over the shared store: between any two of its calls a relay
finds the others' calls made, and other nodes started again. -/
def outline (w : Ways) : Outline Inbox RelayOp Net where
  exec := acts w
  inv := Good w
  rely i := Relation.ReflTransGen fun s s' =>
    Good w s ∧ Good w s' ∧ ((∃ j, j ≠ i ∧ Move j s s') ∨ ∃ name, name ≠ i.1 ∧ s' = s.again name)
  guar := Move
  rely_refl _ _ := .refl
  rely_trans _ _ _ _ := .trans
  guar_rely i _ _ _ hij hI hI' hmove := .single ⟨hI, hI', .inl ⟨i, hij, hmove⟩⟩

variable {w : Ways} {s s' : Net} {i : Inbox}

/-- A node started again has done nothing of another's. -/
theorem own_again {name : Text} (hne : name ≠ i.1) : (s.again name).own i = s.own i := by
  have hlife : Function.update s.lives name (s.lives name + 1) i.1 = s.lives i.1 :=
    Function.update_of_ne (Ne.symm hne) ..
  exact congrArg (s.of i) hlife

/-- What holds on while the others move. -/
def Stable (w : Ways) (i : Inbox) (P : Net → Prop) : Prop :=
  ∀ s s', (outline w).rely i s s' → P s → P s'

private theorem Stable.and {P Q : Net → Prop} (hP : Stable w i P) (hQ : Stable w i Q) :
    Stable w i fun s => P s ∧ Q s :=
  fun s s' hrely h => ⟨hP s s' hrely h.1, hQ s s' hrely h.2⟩

/-- What a relay did in its life stands. -/
theorem stable_own (l : List Event) : Stable w i fun s => s.own i = l := by
  intro s s' hrely h
  induction hrely with
  | refl => exact h
  | tail _ hstep ih =>
    obtain ⟨-, -, ⟨j, hne, hmove⟩ | ⟨name, hne, rfl⟩⟩ := hstep
    · rw [hmove.own i (Ne.symm hne), ih]
    · rw [own_again hne, ih]

/-- So does what was given over. -/
theorem stable_gives (g : Given) : Stable w i fun s => s.Gives g := by
  intro s s' hrely h
  induction hrely with
  | refl => exact h
  | tail _ hstep ih =>
    obtain ⟨e, he, hevent⟩ := ih
    obtain ⟨-, -, ⟨j, -, hmove⟩ | ⟨name, -, rfl⟩⟩ := hstep
    · exact ⟨e, hmove.grown.subset he, hevent⟩
    · exact ⟨e, he, hevent⟩

/-- What is said of what a relay did in its life stands. -/
theorem stable_of_own (Q : List Event → Prop) : Stable w i fun s => Q (s.own i) := by
  intro s s' hrely h
  rwa [stable_own (s.own i) s s' hrely rfl]

/-- A file no other relay touches stands. -/
theorem stable_file {d : Inbox} {name : Text} (hmine : ∀ j, j ≠ i → ¬Touches j d name)
    (c : Option (List UInt8)) :
    Stable w i fun s => s.store.file d name = c := by
  intro s s' hrely h
  induction hrely with
  | refl => exact h
  | tail _ hstep ih =>
    obtain ⟨-, -, ⟨j, hne, hmove⟩ | ⟨name, -, rfl⟩⟩ := hstep
    · rw [hmove.files d name (hmine j hne), ih]
    · exact ih

/-- **A call** of a relay, from what holds while the others move. -/
theorem safe_call {α β : Type} {op : RelayOp β} {next : β → Prog RelayOp α} {post : α → Net → Prop}
    {P : Net → Prop} (hstable : Stable w i P) (hP : P s)
    (h : ∀ t b t', Good w t → P t → Acts w i op t b t' →
      Good w t' ∧ Move i t t' ∧ (Good w t' → (outline w).Safe i post (next b) t')) :
    (outline w).Safe i post (.call op next) s := by
  intro t hrely hgood b t' hacts
  obtain ⟨hgood', hmove, hsafe⟩ := h t b t' hgood (hstable s t hrely hP) hacts
  exact ⟨hgood', hmove, hsafe hgood'⟩

/-- The end of a program. -/
theorem safe_pure {α : Type} {a : α} {post : α → Net → Prop} (hstable : Stable w i (post a))
    (h : post a s) :
    (outline w).Safe i post (Prog.pure a) s :=
  Outline.Safe.of_post h fun t hrely _ hpost => hstable s t hrely hpost

/-- A program of one call. -/
theorem safe_perform {α : Type} {op : RelayOp α} {post : α → Net → Prop} {P : Net → Prop}
    (hstable : Stable w i P) (hend : ∀ a, Stable w i (post a)) (hP : P s)
    (h : ∀ t b t', Good w t → P t → Acts w i op t b t' → Good w t' ∧ Move i t t' ∧ post b t') :
    (outline w).Safe i post (Prog.perform op) s :=
  safe_call hstable hP fun t b t' hgood hp hacts => by
    obtain ⟨hgood', hmove, hpost⟩ := h t b t' hgood hp hacts
    exact ⟨hgood', hmove, fun _ => safe_pure (hend b) hpost⟩

/-! ### A delivery -/

private theorem witnessed_plain {β : Type} (op : FileOp Inbox UInt8 β) (b : Except Text β) :
    witnessed s op .plain b = none := by
  cases op <;> rfl

/-- A call on the store that is not seen. -/
theorem safe_plain {α β : Type} {op : FileOp Inbox UInt8 β} {next : Except Text β → Prog RelayOp α}
    {post : α → Net → Prop} {P : Net → Prop} (hstable : Stable w i P) (hP : P s)
    (h : ∀ t b store, Good w t → P t → op.May w.fails t.store b store →
      (Good w (t.leave store) ∧ Move i t (t.leave store)) ∧
        (Good w (t.leave store) → (outline w).Safe i post (next b) (t.leave store))) :
    (outline w).Safe i post (.call (.file op .plain) next) s := by
  apply safe_call hstable hP
  intro t b t' hgood hp hacts
  obtain ⟨store, hmay, rfl⟩ := hacts
  rw [witnessed_plain]
  obtain ⟨hkept, hsafe⟩ := h t b store hgood hp hmay
  exact ⟨hkept.1, hkept.2, hsafe⟩

/-- What a relay did, with a delivery tried. -/
def handed (l : List Event) (g : Given) : Except Text Unit → List Event
  | .ok _ => .given g false :: l
  | .error _ => l

/-- **A delivery**: the handoff is written under a name no other relay touches and nothing waits
under, and renamed into place. -/
theorem safe_deliver {d : Inbox} {handoff : Handoff} {sequence : Nat} {l : List Event}
    (hcarries : Carries i handoff) (hbound : Bound w i handoff d)
    (hfresh : ∀ g ∈ Event.gifts l, g.sequence ≠ sequence)
    (hpending : ¬w.resumes → Event.pending l = none) (h : s.own i = l) :
    (outline w).Safe i (fun b t => t.own i = handed l ⟨d, handoff, sequence⟩ b)
    (deliver d handoff sequence) s := by
  have hmine (j : Inbox) (hne : j ≠ i) :
    ¬Touches j d (handoff.fileName sequence ++ '.' :: writing) :=
    not_touches_writing hcarries hbound.next hne
  have htouch : Touches i d (handoff.fileName sequence ++ '.' :: writing) :=
    .inl ⟨handoff, sequence, writing, hcarries, hbound.next, .inl rfl, rfl⟩
  have hwriting : extension (handoff.fileName sequence ++ '.' :: writing) ≠ some ready := by
    rw [handoff.extension_writing sequence]
    decide
  have hfailed (why : Text) (t : Net) (ht : t.own i = l) : (outline w).Safe i
      (fun b t => t.own i = handed l ⟨d, handoff, sequence⟩ b) (Prog.pure (.error why)) t :=
    safe_pure (stable_own _) ht
  -- The directory is made,
  refine safe_plain (stable_own l) h fun t b store hgood hown hmay => ⟨?_, fun _ => ?_⟩
  · exact hgood.quiet fun d' name _ => hmay.makeDir.1 d' name
  cases b with
  | error why => exact hfailed why _ hown
  | ok _ =>
  -- the file made,
  refine safe_plain (stable_own l) hown fun t b store hgood hown hmay => ?_
  rcases hmay.create with ⟨⟨why, rfl⟩, rfl, -⟩ | ⟨rfl, hputs⟩
  · exact ⟨⟨hgood, Move.refl⟩, fun _ => hfailed why _ hown⟩
  refine ⟨hgood.puts hputs htouch hwriting, fun _ => ?_⟩
  -- the handoff written,
  refine safe_plain ((stable_own l).and (stable_file hmine (some []))) ⟨hown, hputs.self⟩
    fun t b store hgood hat hmay => ?_
  rcases hmay.write (by rw [hat.2]; rfl) with ⟨⟨why, rfl⟩, -, part, hputs⟩ | ⟨rfl, hputs⟩
  · exact ⟨hgood.puts hputs htouch hwriting, fun _ => hfailed why _ hat.1⟩
  refine ⟨hgood.puts hputs htouch hwriting, fun _ => ?_⟩
  -- and the file renamed into place.
  refine safe_perform ((stable_own l).and (stable_file hmine (some handoff.encode)))
    (fun b => stable_own _)
    ⟨hat.1, hputs.self⟩ fun t b t' hgood hat hacts => ?_
  obtain ⟨store, hmay, rfl⟩ := hacts
  obtain ⟨rfl, hcontent⟩ := hat
  rcases hmay.rename with ⟨⟨why, rfl⟩, rfl, -⟩ | ⟨rfl, c, hc, hmoved⟩
  · exact ⟨hgood, Move.refl, rfl⟩
  · rw [hcontent] at hc
    obtain rfl := Option.some.inj hc
    obtain ⟨hover, hgood', hmove⟩ := hgood.gives hcarries hbound hfresh hpending hmoved
    have hseen : witnessed t (.rename d (handoff.fileName sequence ++ '.' :: writing)
        (handoff.fileName sequence ++ '.' :: ready)) (.deliver handoff sequence) (.ok ()) =
          some (.given ⟨d, handoff, sequence⟩ false) :=
      congrArg (fun stood => some (Event.given ⟨d, handoff, sequence⟩ stood)) hover
    rw [hseen]
    exact ⟨hgood', hmove, own_push_self (s := t.leave store)⟩

/-! ### A claim -/

/-- What a claim adds to what a relay did: the files claimed, each read back as it was. -/
structure Claimed (l l' : List Event) (claimed : List Handoff) : Prop where
  settled : Event.decodes l' = Event.claims l'
  found : Event.found l' = claimed.reverse ++ Event.found l
  judged : Event.judgedOf l' = Event.judgedOf l
  gifts : Event.gifts l' = Event.gifts l
  pending : Event.pending l' = Event.pending l
  tokens : ∀ h ∈ claimed, Handoff.Token h.transport

private theorem Claimed.refl {l : List Event} (h : Event.decodes l = Event.claims l) :
    Claimed l l [] :=
  ⟨h, rfl, rfl, rfl, rfl, fun _ h => absurd h List.not_mem_nil⟩

/-- What a claimed file read back as: the handoff that was given over, where it could be read. -/
theorem decode_given {t : Net} {g : Given} (hgood : Good w t) (hgives : t.Gives g) :
    Handoff.decode g.handoff.encode = some g.handoff ∧ Handoff.Token g.handoff.transport := by
  obtain ⟨e, he, stood, hevent⟩ := hgives
  have hsound := hgood.sound e he
  rw [hevent] at hsound
  exact ⟨Handoff.decode_encode hsound.1.token.1 hsound.1.word, hsound.1.token⟩

/-- **A claim of each name** that ends as a handoff's does. -/
theorem safe_claimEach (process : Nat) {l : List Event} (names : List Text)
    (hready : ∀ name ∈ names, extension name = some ready)
    (hsettled : Event.decodes l = Event.claims l)
    (h : s.own i = l) :
    (outline w).Safe i (fun claimed t => Claimed l (t.own i) claimed.1) (claimEach i process names)
      s := by
  induction names generalizing l s with
  | nil =>
    refine safe_pure (stable_of_own fun l' => Claimed l l' []) ?_
    rw [h]
    exact Claimed.refl hsettled
  | cons name rest ih =>
    have hrest := fun name hname => hready name (List.mem_cons_of_mem _ hname)
    have hext := hready name List.mem_cons_self
    obtain ⟨hmine, hwriting⟩ := extension_claimed process hext
    set mine := withExtension name ("claimed-".toList ++ decimal process)
    have hkeeps (j : Inbox) (hne : j ≠ i) : ¬Touches j i mine :=
      not_touches_claimed hwriting hmine hne
    -- The file is renamed,
    apply safe_call (stable_own l) h
    intro t b t' hgood hown hacts
    obtain ⟨store, hmay, rfl⟩ := hacts
    rcases hmay.rename with ⟨⟨why, rfl⟩, rfl, -⟩ | ⟨rfl, c, hc, hmoved⟩
    · exact ⟨hgood, Move.refl, fun _ => ih hrest hsettled hown⟩
    obtain ⟨g, hrecent, hdest, hname, hcontent⟩ :=
      hgood.content i name c (by rw [lies, if_pos hext, hc])
    have hgives : t.Gives g := hrecent.gives
    obtain ⟨hgood', hmove⟩ := hgood.takes hext hmine hwriting hc (hown.symm ▸ hsettled) hmoved
    refine ⟨hgood', hmove, fun _ => ?_⟩
    have hclaimed : ((t.leave store).push i (.claimed i name)).own i = .claimed i name :: l := by
      rw [own_push_self, ← hown]
      rfl
    -- read back,
    refine safe_plain (((stable_own _).and (stable_file hkeeps (some c))).and (stable_gives g))
      ⟨⟨hclaimed, ?_⟩, gives_push.mpr (.inr hgives)⟩ fun u raw store' hgood hat hmay => ?_
    · change store.file i mine = some c
      rw [hmoved, if_pos ⟨rfl, rfl⟩]
    obtain ⟨rfl, hread, hreads⟩ := hmay.read
    refine ⟨⟨hgood, Move.refl⟩, fun _ => ?_⟩
    obtain ⟨hdecode, htoken⟩ := decode_given hgood hat.2
    have hwhole (hf : ¬w.fails) : raw = .ok c := hreads hf c hat.1.2
    have hfound (found : Handoff) (hsome : raw.toOption.bind Handoff.decode = some found) :
      found = g.handoff := by
      cases raw with
      | error why => cases hsome
      | ok content =>
        have hraw := hread content rfl
        rw [hat.1.2, Option.some_inj] at hraw
        rw [← hraw, ← hcontent] at hsome
        exact Option.some.inj (hsome.symm.trans hdecode)
    -- said to be so,
    refine safe_call ((stable_own _).and (stable_gives g)) ⟨hat.1.1, hat.2⟩
      fun v _ v' hgood hat hacts => ?_
    set found := raw.toOption.bind Handoff.decode with hraw
    obtain rfl : v' = v.push i (.decoded name found) := hacts
    have hl : v.own i = .claimed i name :: l := hat.1
    have hreads (hf : ¬w.fails) : ∃ g, v.Gives g ∧ g.dest = i ∧ g.name = name ∧
      found = some g.handoff := by
      refine ⟨g, hat.2, hdest, hname, ?_⟩
      rw [hraw, hwhole hf, ← hcontent]
      exact hdecode
    obtain ⟨hgood', hmove⟩ := hgood.reads hl hsettled hreads
    refine ⟨hgood', hmove, fun _ => ?_⟩
    have hdecoded : (v.push i (.decoded name found)).own i =
      .decoded name found :: .claimed i name :: l := by
      rw [own_push_self, hl]
    -- and removed.
    refine safe_plain (stable_own _) hdecoded fun x b store' hgood hown hmay =>
      ⟨?_, fun hgood => ?_⟩
    · rcases hmay.remove with ⟨-, rfl, -⟩ | ⟨-, -, hputs⟩
      · exact ⟨hgood, Move.refl⟩
      · exact hgood.puts hputs (.inr ⟨rfl, hwriting⟩) hmine
    have hstill : Event.decodes (.decoded name found :: .claimed i name :: l) =
        Event.claims (.decoded name found :: .claimed i name :: l) :=
        congrArg (List.cons name) hsettled
    apply (ih (s := x.leave store') hrest hstill hown).bind hgood
    intro claimed t _ hclaimed
    have hmore : Claimed l (t.own i) (found.toList ++ claimed.1) := by
      refine ⟨hclaimed.settled, ?_, hclaimed.judged, hclaimed.gifts, hclaimed.pending, ?_⟩
      · rw [hclaimed.found, List.reverse_append, List.append_assoc]
        cases found with
        | none => rfl
        | some handoff => rfl
      · intro handoff hmem
        rcases List.mem_append.mp hmem with hmem | hmem
        · obtain rfl := hfound handoff (Option.mem_toList.mp hmem)
          exact htoken
        · exact hclaimed.tokens handoff hmem
    clear_value found
    cases found with
    | none => exact safe_pure (stable_of_own fun l' => Claimed l l' claimed.1) hmore
    | some handoff =>
      exact safe_pure (stable_of_own fun l' => Claimed l l' (handoff :: claimed.1)) hmore

/-- **A claim** of a relay's own inbox. -/
theorem safe_claim (process limit : Nat) {l : List Event}
    (hsettled : Event.decodes l = Event.claims l) (h : s.own i = l) :
    (outline w).Safe i (fun claimed t => Claimed l (t.own i) claimed.1) (claim i process limit)
      s := by
  apply safe_plain (stable_own l) h
  intro t b store hgood hown hmay
  obtain ⟨rfl, -, -⟩ := hmay.list
  refine ⟨⟨hgood, Move.refl⟩, fun _ => ?_⟩
  cases b with
  | error why =>
    refine safe_pure (stable_of_own fun l' => Claimed l l' []) ?_
    change Claimed l (t.own i) []
    rw [hown]
    exact Claimed.refl hsettled
  | ok names =>
    refine safe_claimEach process _ (fun name hname => ?_) hsettled hown
    have hmem := (List.perm_insertionSort _ _).mem_iff.mp (List.mem_of_mem_take hname)
    exact of_decide_eq_true (List.mem_filter.mp hmem).2

end Net

end XmipEssentials
