import Mathlib.Algebra.BigOperators.Group.Finset.Basic
import XmipEssentials.Handoff

/-!
# Inboxes while nothing fails

What a delivery and a claim leave of the inboxes where a relay runs alone and every call on the
store does what it is for. Only the handoffs that wait are said of (`Inbox.lies`): what is being
written, and what is being claimed, has another extension.

* `Inbox.ends_deliver` — one handoff more waits, under its name.
* `Inbox.ends_claim` — so many as the limit says wait no more, and are read back as what was
  written.
-/

namespace XmipEssentials

open Text Conc Files

/-- What a call comes to where a relay runs alone: a call on the store does what it is for, and no
Subscription holds a pair that a resume could let go of. -/
def Alone : {β : Type} → RelayOp β → Store Inbox UInt8 → β → Store Inbox UInt8 → Prop
  | _, .file op _, s, b, s' => op.Does s b s'
  | _, .released, s, b, s' => b = [] ∧ s' = s
  | _, _, s, _, s' => s' = s

/-- Calls that come to no more than what they come to alone. -/
def WithinAlone (exec : Exec Unit RelayOp (Store Inbox UInt8)) : Prop :=
  ∀ ⦃β : Type⦄ (op : RelayOp β) (s : Store Inbox UInt8) (b : β) (s' : Store Inbox UInt8),
    exec () op s b s' → Alone op s b s'

/-- A handoff given over: to which inbox, and at which count of its sender's. -/
structure Given where
  dest : Inbox
  handoff : Handoff
  sequence : Nat

/-- The name it waits under. -/
def Given.name (g : Given) : Text := g.handoff.fileName g.sequence ++ '.' :: ready

namespace Inbox

/-- What waits in an inbox under a name. -/
def lies (s : Store Inbox UInt8) (d : Inbox) (name : Text) : Option (List UInt8) :=
  if extension name = some ready then s.file d name else none

/-- The names that wait in an inbox. -/
def waits (s : Store Inbox UInt8) (d : Inbox) : Finset Text :=
  (s.names d).filter fun name => extension name = some ready

variable {s s' : Store Inbox UInt8} {d : Inbox} {name : Text}

theorem mem_waits : name ∈ waits s d ↔ (lies s d name).isSome := by
  rw [waits, Finset.mem_filter, Store.mem_names, lies]
  split_ifs with hready
  · exact and_iff_left hready
  · exact iff_of_false (fun h => hready h.2) Bool.false_ne_true

/-- What waits is told by what lies. -/
theorem waits_congr (h : ∀ name, lies s' d name = lies s d name) : waits s' d = waits s d := by
  ext name
  rw [mem_waits, mem_waits, h]

/-- Nothing waits where there is no directory. -/
theorem waits_none (d : Inbox) : waits (fun _ => none) d = ∅ := by
  apply Finset.eq_empty_of_forall_notMem
  intro name hname
  have hlies := mem_waits.mp hname
  unfold lies at hlies
  split at hlies
  · exact Bool.false_ne_true hlies
  · exact Bool.false_ne_true hlies

/-- A file of another extension is nothing to what waits. -/
theorem lies_puts {c : Option (List UInt8)} (h : s.Puts d name c s')
    (hname : extension name ≠ some ready) (d' : Inbox) (name' : Text) :
    lies s' d' name' = lies s d' name' := by
  unfold lies
  split_ifs with hready
  · apply h.other
    rintro ⟨-, rfl⟩
    exact hname hready
  · rfl

/-- A file given the extension of those that wait waits then. -/
theorem lies_moved {old new : Text} {content : List UInt8}
    (h : ∀ d' name', s'.file d' name' = if d' = d ∧ name' = new then some content
      else if d' = d ∧ name' = old then none else s.file d' name')
    (hnew : extension new = some ready) (hold : extension old ≠ some ready) (d' : Inbox)
      (name' : Text) :
    lies s' d' name' = if d' = d ∧ name' = new then some content else lies s d' name' := by
  unfold lies
  by_cases hready : extension name' = some ready
  · -- A name that waits is not the old one.
    have hne : ¬(d' = d ∧ name' = old) := by
      rintro ⟨-, rfl⟩
      exact hold hready
    rw [if_pos hready, if_pos hready, h, if_neg hne]
  · have hne : ¬(d' = d ∧ name' = new) := by
      rintro ⟨-, rfl⟩
      exact hready hnew
    rw [if_neg hready, if_neg hready, if_neg hne]

variable {exec : Exec Unit RelayOp (Store Inbox UInt8)} (hexec : WithinAlone exec)

include hexec

/-- A call on the store, alone, does what it is for. -/
theorem ends_file {β : Type} {op : FileOp Inbox UInt8 β} {note : Note}
    {post : Except Text β → Store Inbox UInt8 → Prop} (h : ∀ b s', op.May False s b s' →
      post b s') : (file op note).Ends exec () post s :=
  Prog.ends_call.mpr fun b s' did => Prog.ends_pure.mpr (h b s' (.inl (hexec _ _ _ _ did)))

theorem ends_tell {note : Note} :
    (Prog.perform (.tell note) : Prog RelayOp Unit).Ends exec () (fun _ t => t = s) s :=
  Prog.ends_call.mpr fun b s' did => Prog.ends_pure.mpr (hexec (.tell note) s b s' did)

/-- **A delivery**: one handoff more waits, under its name. -/
theorem ends_deliver (handoff : Handoff) (sequence : Nat) :
    (deliver d handoff sequence).Ends exec () (fun b t => b = .ok () ∧ ∀ d' name, lies t d' name =
      if d' = d ∧ name = handoff.fileName sequence ++ '.' :: ready then some handoff.encode
      else lies s d' name) s := by
  have hext := handoff.extension_ready sequence
  have hwriting : extension (handoff.fileName sequence ++ '.' :: writing) ≠ some ready := by
    rw [handoff.extension_writing sequence]
    decide
  refine (ends_file hexec (fun b t hmay => hmay.makeDir)).bind fun b t hmake => ?_
  obtain ⟨hsame, hdir, hok⟩ := hmake
  obtain rfl := hok not_false
  refine (ends_file hexec (fun b t hmay => hmay.create)).bind fun b u hcreate => ?_
  -- nothing fails here: made, created, written, renamed
  rcases hcreate with ⟨-, -, hnone⟩ | ⟨rfl, hcreated⟩
  · rw [hnone not_false] at hdir
    exact absurd (hdir rfl) Bool.false_ne_true
  refine (ends_file hexec (fun b v hmay => hmay.write (by rw [hcreated.self]; rfl))).bind
    fun b v hwrite => ?_
  rcases hwrite with ⟨-, hfails, -⟩ | ⟨rfl, hwritten⟩
  · exact absurd hfails not_false
  refine (ends_file hexec (fun b w hmay => hmay.rename)).mono fun b w hrename => ?_
  rcases hrename with ⟨-, -, hnone⟩ | ⟨rfl, content, hcontent, hmoved⟩
  · rw [hwritten.self] at hnone
    cases hnone not_false
  · rw [hwritten.self] at hcontent
    obtain rfl := Option.some.inj hcontent
    refine ⟨rfl, fun d' name => ?_⟩
    have hmade : lies t d' name = lies s d' name := by
      unfold lies
      rw [hsame]
    -- only the last of the four changes what lies ready
    rw [lies_moved hmoved hext hwriting, lies_puts hwritten hwriting, lies_puts hcreated hwriting,
      hmade]

omit hexec in
/-- What a handoff is claimed under. -/
theorem extension_mine (process : Nat) (hready : extension name = some ready) :
    extension (withExtension name ("claimed-".toList ++ decimal process)) =
      some ("claimed-".toList ++ decimal process) := by
  have hstem : fileStem name ≠ [] := by
    revert hready
    unfold extension fileStem
    cases rsplitOnce '.' name with
    | none => exact fun h => absurd h.symm (Option.some_ne_none _)
    | some cut =>
      obtain ⟨before, after⟩ := cut
      cases before with
      | nil => exact fun h => absurd h.symm (Option.some_ne_none _)
      | cons c before => exact fun _ => List.cons_ne_nil _ _
  have hdot : '.' ∉ "claimed-".toList ++ decimal process := by
    rw [List.mem_append]
    rintro (hmem | hmem)
    · exact absurd hmem (by decide)
    · exact absurd (decimal_isDigit hmem) (by decide)
  rw [withExtension, extension_append hstem hdot]

omit hexec in
/-- The name a handoff is claimed under is no name that waits, or that is being written. -/
theorem extension_claimed (process : Nat) (hready : extension name = some ready) :
    extension (withExtension name ("claimed-".toList ++ decimal process)) ≠ some ready ∧
      extension (withExtension name ("claimed-".toList ++ decimal process)) ≠ some writing := by
  rw [extension_mine process hready]
  constructor
  · intro heq
    have hhead := congrArg List.head? (Option.some.inj heq)
    revert hhead
    change some 'c' = some 'h' → False
    decide
  · intro heq
    have hhead := congrArg List.head? (Option.some.inj heq)
    revert hhead
    change some 'c' = some 'w' → False
    decide

omit hexec in
/-- What lies there without the names claimed, one and then the rest. -/
theorem lies_cons {rest : List Text} {u t : Store Inbox UInt8}
    (hfirst : ∀ d' name', lies u d' name' = if d' = d ∧ name' = name then none else lies s d' name')
    (hrest : ∀ d' name', lies t d' name' = if d' = d ∧ name' ∈ rest then none else lies u d' name')
    (d' : Inbox) (name' : Text) :
    lies t d' name' = if d' = d ∧ name' ∈ name :: rest then none else lies s d' name' := by
  rw [hrest, hfirst]
  by_cases hd : d' = d
  · by_cases hin : name' ∈ rest
    · rw [if_pos ⟨hd, hin⟩, if_pos ⟨hd, List.mem_cons_of_mem name hin⟩]
    · rw [if_neg fun h => hin h.2]
      by_cases hname : name' = name
      · rw [if_pos ⟨hd, hname⟩, if_pos ⟨hd, hname ▸ List.mem_cons_self⟩]
      · rw [if_neg fun h => hname h.2, if_neg fun h => (List.mem_cons.mp h.2).elim hname hin]
  · rw [if_neg fun h => hd h.1, if_neg fun h => hd h.1, if_neg fun h => hd h.1]

/-- One claim: the file renamed, read back, and removed. -/
theorem ends_claimOne (process : Nat) {content : List UInt8}
    (hwait : lies s d name = some content) :
    (file (.rename d name (withExtension name ("claimed-".toList ++ decimal process))) .claim).Ends
      exec ()
      (fun b t => b = .ok () ∧
        t.file d (withExtension name ("claimed-".toList ++ decimal process)) = some content ∧
        ∀ d' name', lies t d' name' = if d' = d ∧ name' = name then none
          else lies s d' name') s := by
  -- only a ready file waits
  have hready : extension name = some ready := by
    by_contra hno
    rw [lies, if_neg hno] at hwait
    cases hwait
  rw [lies, if_pos hready] at hwait
  have hclaimed := (extension_claimed process hready).1
  refine ends_file hexec fun b t hmay => ?_
  rcases hmay.rename with ⟨-, -, hnone⟩ | ⟨rfl, content', hcontent, hmoved⟩
  · rw [hwait] at hnone
    cases hnone not_false
  · rw [hwait] at hcontent
    obtain rfl := Option.some.inj hcontent
    refine ⟨rfl, by rw [hmoved, if_pos ⟨rfl, rfl⟩], fun d' name' => ?_⟩
    unfold lies
    -- the name it takes is not ready, so nothing else lies there after
    by_cases hready' : extension name' = some ready
    · have hne : ¬(d' = d ∧ name' = withExtension name ("claimed-".toList ++ decimal process)) := by
        rintro ⟨-, rfl⟩
        exact hclaimed hready'
      rw [if_pos hready', if_pos hready', hmoved, if_neg hne]
    · rw [if_neg hready', if_neg hready', ite_self]

/-- **A claim of each name**, all of which wait: each is read back, and waits no more. -/
theorem ends_claimEach (process : Nat) (names : List Text) (hnodup : names.Nodup)
    (hwait : ∀ name ∈ names, (lies s d name).isSome) :
    (claimEach d process names).Ends exec () (fun claimed t =>
      claimed.1 = names.filterMap (fun name => (lies s d name).bind Handoff.decode) ∧
        ∀ d' name, lies t d' name = if d' = d ∧ name ∈ names then none else lies s d' name) s := by
  induction names generalizing s with
  | nil =>
    refine Prog.ends_pure.mpr ⟨rfl, fun d' name => ?_⟩
    rw [if_neg fun h => List.not_mem_nil h.2]
  | cons name rest ih =>
    obtain ⟨hnot, hnodup⟩ := List.nodup_cons.mp hnodup
    obtain ⟨content, hcontent⟩ := Option.isSome_iff_exists.mp (hwait name List.mem_cons_self)
    refine (ends_claimOne hexec process hcontent).bind fun b t hclaim => ?_
    obtain ⟨rfl, hmine, hlies⟩ := hclaim
    have hready : extension name = some ready := by
      by_contra hno
      rw [lies, if_neg hno] at hcontent
      cases hcontent
    refine (ends_file hexec fun b u hmay => hmay.read).bind fun raw u hread => ?_
    obtain ⟨rfl, -, hraw⟩ := hread
    obtain rfl := hraw not_false content hmine
    refine (ends_tell hexec).bind fun _ v hv => ?_
    obtain rfl : v = u := hv
    refine (ends_file hexec fun b w hmay => hmay.remove).bind fun _ w hremove => ?_
    -- What the claim was read under is no name that waits.
    have hkept (d' : Inbox) (name' : Text) : lies w d' name' = lies v d' name' := by
      rcases hremove with ⟨-, rfl, -⟩ | ⟨-, -, hputs⟩
      · rfl
      · unfold lies
        split_ifs with hready'
        · refine hputs.other ?_
          rintro ⟨-, rfl⟩
          exact (extension_claimed process hready).1 hready'
        · rfl
    have hfirst (d' : Inbox) (name' : Text) :
        lies w d' name' = if d' = d ∧ name' = name then none else lies s d' name' :=
      (hkept d' name').trans (hlies d' name')
    have hsame (name' : Text) (hin : name' ∈ rest) : lies w d name' = lies s d name' := by
      rw [hfirst, if_neg]
      rintro ⟨-, rfl⟩
      exact hnot hin
    have hrest := ih (s := w) hnodup fun name' hin => by
      rw [hsame name' hin]
      exact hwait name' (List.mem_cons_of_mem name hin)
    refine hrest.bind fun claimed x hclaimed => ?_
    obtain ⟨hread, hleft⟩ := hclaimed
    have hall := lies_cons hfirst hleft
    have hlist : claimed.1 = rest.filterMap fun name' => (lies s d name').bind Handoff.decode := by
      rw [hread]
      exact List.filterMap_congr fun name' hin => by rw [hsame name' hin]
    have hhead : (name :: rest).filterMap (fun name' => (lies s d name').bind Handoff.decode) =
        ((Handoff.decode content).toList ++ claimed.1) := by
      rw [List.filterMap_cons, hcontent, Option.bind_some, hlist]
      cases Handoff.decode content <;> rfl
    rw [hhead]
    obtain ⟨found, unreadable⟩ := claimed
    dsimp only
    split
    · next handoff hdecode =>
      have hdecode : Handoff.decode content = some handoff := hdecode
      rw [hdecode]
      exact Prog.ends_pure.mpr ⟨rfl, hall⟩
    · next hdecode =>
      have hdecode : Handoff.decode content = none := hdecode
      rw [hdecode]
      exact Prog.ends_pure.mpr ⟨rfl, hall⟩

/-- **A claim**: so many as the limit says wait no more, and are read back as what was written. -/
theorem ends_claim (process limit : Nat) :
    (claim d process limit).Ends exec () (fun claimed t =>
      ∃ names : List Text, names.Nodup ∧ (∀ name ∈ names, name ∈ waits s d) ∧
        names.length = min limit (waits s d).card ∧
        claimed.1 = names.filterMap (fun name => (lies s d name).bind Handoff.decode) ∧
        ∀ d' name, lies t d' name = if d' = d ∧ name ∈ names then none else lies s d' name) s := by
  refine (ends_file hexec fun b t hmay => hmay.list).bind fun b t hlist => ?_
  obtain ⟨rfl, hnames, hok⟩ := hlist
  cases b with
  -- no list, so no directory: then nothing waits
  | error why =>
    have hnone : waits t d = ∅ := by
      apply Finset.eq_empty_of_forall_notMem
      intro name hin
      have hfile : (t.file d name).isSome := by
        rw [mem_waits, lies] at hin
        split_ifs at hin with hready
        · exact hin
        · exact absurd hin Bool.false_ne_true
      have hdir : (t d).isSome := by
        cases hd : t d with
        | none =>
          rw [Store.file, hd] at hfile
          exact absurd hfile Bool.false_ne_true
        | some dir => rfl
      obtain ⟨names, hb⟩ := hok not_false hdir
      cases hb
    refine Prog.ends_pure.mpr ⟨[], List.nodup_nil, fun _ h => absurd h List.not_mem_nil, ?_, rfl,
      fun d' name => ?_⟩
    · rw [hnone, Finset.card_empty, Nat.min_zero]
      rfl
    · rw [if_neg fun h => List.not_mem_nil h.2]
  | ok names =>
    obtain ⟨hnodup, hmem⟩ := hnames names rfl
    -- the ready names in order, and the first of them up to the limit
    set sorted := (names.filter fun name => extension name = some ready).insertionSort (· ≤ ·) with
      hsorted
    have hperm : sorted.Perm (names.filter fun name => extension name = some ready) :=
      List.perm_insertionSort _ _
    have hsortedNodup : sorted.Nodup := hperm.nodup_iff.mpr (hnodup.filter _)
    -- sorted or not, they are what waits
    have hin (name : Text) : name ∈ sorted ↔ name ∈ waits t d := by
      rw [hperm.mem_iff, List.mem_filter, hmem, waits, Finset.mem_filter, Store.mem_names,
        decide_eq_true_iff]
    have hcard : sorted.length = (waits t d).card := by
      rw [← List.toFinset_card_of_nodup hsortedNodup]
      congr 1
      ext name
      rw [List.mem_toFinset, hin]
    have htaken (name : Text) (h : name ∈ sorted.take limit) : name ∈ waits t d :=
      (hin name).mp (List.mem_of_mem_take h)
    refine (ends_claimEach hexec process (sorted.take limit)
      (hsortedNodup.sublist (List.take_sublist _ _)) fun name h =>
      mem_waits.mp (htaken name h)).mono fun claimed u hclaimed => ?_
    refine ⟨sorted.take limit, hsortedNodup.sublist (List.take_sublist _ _), htaken, ?_, hclaimed.1,
      hclaimed.2⟩
    rw [List.length_take, hcard]

end Inbox

end XmipEssentials
