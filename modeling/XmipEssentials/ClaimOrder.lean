import XmipEssentials.LockStep.Inboxes

/-!
# Oldest rounds first

One process delivers into its inbox and claims from it, in any order. What it claims it takes in the
order of the files' names, which begin with the round in ten digits, so older rounds come first
(`Text.le_of_padded_append_le`). A file claimed is out of the inbox for good, whatever it reads back
as (`Inbox.Claims`).

* `Inbox.claim_order` — what each claim takes, and that no two take the same delivery.
-/

namespace XmipEssentials

open Text Conc Files

namespace Inbox

/-- What calls come to where one process makes them all. Where `fails`, each may fail for reasons of
its own. -/
def sole (fails : Prop) : Exec Unit RelayOp (Store Inbox UInt8)
  | _, _, .file op _, s, b, s' => op.May fails s b s'
  | _, _, _, s, _, s' => s' = s

/-- A file's name begins with its round, one that ten digits hold, and so the source's 64 bits. -/
def Dated (name : Text) (round : Nat) : Prop :=
  round < 10 ^ 10 ∧ ∃ rest, name = padded 10 round ++ '-' :: rest

/-- Every file that waits is of a round, and one that reads back as a handoff is of the
handoff's. A file whose header says a round of more than 64 bits, which the source would not read
back, is none of these, as its name has another one. -/
def Filed (s : Store Inbox UInt8) (d : Inbox) : Prop :=
  ∀ name content, lies s d name = some content →
    ∃ round, Dated name round ∧ ∀ handoff, Handoff.decode content = some handoff →
    handoff.round = round

/-- What a claim of these names took, in their order, and what each file read back as. -/
structure Took (fails : Prop) (s : Store Inbox UInt8) (d : Inbox) (names : List Text)
    (res : List Handoff × Nat) (t : Store Inbox UInt8) (found : List (Text × Option Handoff)) :
    Prop where
  order : (found.map Prod.fst).Sublist names
  result : res = (found.filterMap Prod.snd, found.countP fun one => one.2.isNone)
  read : ∀ one ∈ found, ∃ content, lies s d one.1 = some content ∧
    ∀ handoff, one.2 = some handoff → Handoff.decode content = some handoff
  whole : ¬fails → (∀ name ∈ names, (lies s d name).isSome → name ∈ found.map Prod.fst) ∧
    ∀ one ∈ found, one.2 = (lies s d one.1).bind Handoff.decode
  left : ∀ d' name, lies t d' name = if d' = d ∧ name ∈ found.map Prod.fst then none
    else lies s d' name
  unwritten : ∀ d' name, extension name = some writing → t.file d' name = s.file d' name

variable {fails : Prop} {s t : Store Inbox UInt8} {d : Inbox} {name : Text} {process : Nat}

private theorem ends_file_sole {β : Type} {op : FileOp Inbox UInt8 β} {note : Note}
    {post : Except Text β → Store Inbox UInt8 → Prop} (h : ∀ b s', op.May fails s b s' →
      post b s') :
    (file op note).Ends (sole fails) () post s :=
  Prog.ends_call.mpr fun b s' did => Prog.ends_pure.mpr (h b s' did)

/-- Nothing taken. -/
theorem took_nil : Took fails s d [] ([], 0) s [] where
  order := .slnil
  result := rfl
  read _ h := absurd h List.not_mem_nil
  whole _ := ⟨fun _ h => absurd h List.not_mem_nil, fun _ h => absurd h List.not_mem_nil⟩
  left d' name := by rw [if_neg fun h => List.not_mem_nil h.2]
  unwritten _ _ _ := rfl

/-- A name that could not be taken leaves the rest to be. -/
theorem Took.skip {rest : List Text} {res : List Handoff × Nat}
    {found : List (Text × Option Handoff)} (h : Took fails s d rest res t found)
    (hnone : ¬fails → lies s d name = none) :
    Took fails s d (name :: rest) res t found where
  order := h.order.cons name
  result := h.result
  read := h.read
  whole hno := by
    refine ⟨fun name' hname' hsome => ?_, (h.whole hno).2⟩
    rcases List.mem_cons.mp hname' with rfl | hname'
    · rw [hnone hno] at hsome
      cases hsome
    · exact (h.whole hno).1 name' hname' hsome
  left := h.left
  unwritten := h.unwritten

/-- What a taken name leaves of the inbox, and what of it goes on to the rest. -/
structure Out (s : Store Inbox UInt8) (d : Inbox) (name : Text) (t : Store Inbox UInt8) : Prop where
  left : ∀ d' name', lies t d' name' = if d' = d ∧ name' = name then none else lies s d' name'
  unwritten : ∀ d' name', extension name' = some writing → t.file d' name' = s.file d' name'

/-- One more file taken to what the rest came to: a handoff more, or one more that is unreadable. -/
def added : Option Handoff → List Handoff × Nat → List Handoff × Nat
  | some handoff, res => (handoff :: res.1, res.2)
  | none, res => (res.1, res.2 + 1)

/-- A name taken, and then the rest. -/
theorem Took.cons {rest : List Text} {u : Store Inbox UInt8} {res : List Handoff × Nat}
    {found : List (Text × Option Handoff)} {content : List UInt8} {back : Option Handoff}
    (h : Took fails u d rest res t found) (hout : Out s d name u) (hnot : name ∉ rest)
    (hcontent : lies s d name = some content)
    (hback : ∀ handoff, back = some handoff → Handoff.decode content = some handoff)
    (hwhole : ¬fails → back = Handoff.decode content) :
    Took fails s d (name :: rest) (added back res) t ((name, back) :: found) where
  order := h.order.cons_cons name
  -- What reads back is taken, and what does not is counted as unreadable.
  result := by
    rw [h.result]
    cases back with
    | some handoff => rfl
    | none =>
      rw [added, List.filterMap_cons_none rfl, List.countP_cons_of_pos rfl]
  read := by
    rw [List.forall_mem_cons]
    refine ⟨⟨content, hcontent, hback⟩, fun one hone => ?_⟩
    -- The rest was read after this file was gone, and none of it is this file.
    obtain ⟨content', hcontent', hread⟩ := h.read one hone
    have hne : ¬(d = d ∧ one.1 = name) := by
      rintro ⟨-, heq⟩
      exact hnot (heq ▸ h.order.subset (List.mem_map_of_mem hone))
    rw [hout.left, if_neg hne] at hcontent'
    exact ⟨content', hcontent', hread⟩
  whole hno := by
    obtain ⟨hall, hreads⟩ := h.whole hno
    rw [List.forall_mem_cons, List.forall_mem_cons, List.map_cons]
    -- Without failures all that waits is claimed: the rest as it waits once this file is gone.
    refine ⟨⟨fun _ => List.mem_cons_self, fun name' hname' hsome => List.mem_cons_of_mem _ ?_⟩, ?_,
      fun one hone => ?_⟩
    · apply hall name' hname'
      rwa [hout.left, if_neg]
      rintro ⟨-, rfl⟩
      exact hnot hname'
    · rw [hcontent]
      exact hwhole hno
    · rw [hreads one hone, hout.left, if_neg]
      rintro ⟨-, heq⟩
      exact hnot (heq ▸ h.order.subset (List.mem_map_of_mem hone))
  left := lies_cons hout.left h.left
  unwritten d' name' hwriting :=
    (h.unwritten d' name' hwriting).trans (hout.unwritten d' name' hwriting)

/-- A waiting file renamed to be claimed is out of the inbox. -/
theorem out_of_renamed {u : Store Inbox UInt8} {content : List UInt8}
    (hready : extension name = some ready) (hmoved : ∀ d' name', u.file d' name' =
      if d' = d ∧ name' = withExtension name ("claimed-".toList ++ decimal process) then
        some content
      else if d' = d ∧ name' = name then none else s.file d' name') : Out s d name u where
  left d' name' := by
    unfold lies
    by_cases hready' : extension name' = some ready
    · -- Who claims a file gives it an extension that no longer waits.
      have hne : ¬(d' = d ∧ name' = withExtension name ("claimed-".toList ++ decimal process)) := by
        rintro ⟨-, rfl⟩
        exact (extension_claimed process hready).1 hready'
      rw [if_pos hready', if_pos hready', hmoved, if_neg hne]
    · rw [if_neg hready', if_neg hready', ite_self]
  -- No file on its way in is a claimed one.
  unwritten d' name' hwriting := by
    rw [hmoved, if_neg, if_neg]
    · rintro ⟨-, rfl⟩
      rw [hready] at hwriting
      exact absurd hwriting (by decide)
    · rintro ⟨-, rfl⟩
      exact (extension_claimed process hready).2 hwriting

/-- What becomes of the file a handoff was claimed under is nothing to the inbox. -/
theorem Out.removed {u v : Store Inbox UInt8} {b : Except Text Unit} (h : Out s d name u)
    (hready : extension name = some ready)
    (hmay : (FileOp.remove d (withExtension name ("claimed-".toList ++ decimal process))).May fails
      u b v) :
    Out s d name v := by
  rcases hmay.remove with ⟨-, rfl, -⟩ | ⟨-, -, hputs⟩
  · exact h
  · -- What is removed is the claimed file, which neither waits nor is on its way in.
    constructor
    · intro d' name'
      rw [← h.left]
      unfold lies
      split_ifs with hready'
      · apply hputs.other
        rintro ⟨-, rfl⟩
        exact (extension_claimed process hready).1 hready'
      · rfl
    · intro d' name' hwriting
      rw [← h.unwritten d' name' hwriting]
      apply hputs.other
      rintro ⟨-, rfl⟩
      exact (extension_claimed process hready).2 hwriting

/-- **A claim of each name**: what it takes, it takes out of the inbox and reads back. -/
theorem ends_claimEach_sole (process : Nat) (names : List Text) (hnodup : names.Nodup)
    (hready : ∀ name ∈ names, extension name = some ready) :
    (claimEach d process names).Ends (sole fails) ()
    (fun res t => ∃ found, Took fails s d names res t found) s := by
  -- The names are claimed one after another, each in the store the ones before it left.
  induction names generalizing s with
  | nil => exact Prog.ends_pure.mpr ⟨[], took_nil⟩
  | cons name rest ih =>
    obtain ⟨hnot, hnodup⟩ := List.nodup_cons.mp hnodup
    rw [List.forall_mem_cons] at hready
    obtain ⟨hname, hready⟩ := hready
    refine Prog.Ends.bind (ends_file_sole fun b u hmay => hmay.rename) fun b u hrename => ?_
    -- Another process may have renamed the file first, and then it is passed over.
    rcases hrename with ⟨⟨why, rfl⟩, rfl, hnone⟩ | ⟨rfl, content, hcontent, hmoved⟩
    · refine (ih (s := u) hnodup hready).mono fun res t htook => ?_
      obtain ⟨found, htook⟩ := htook
      refine ⟨found, htook.skip fun hno => ?_⟩
      rw [lies, if_pos hname]
      exact hnone hno
    -- From here on the file is this process's own, under its claimed name.
    have hmine := hmoved d (withExtension name ("claimed-".toList ++ decimal process))
    rw [if_pos ⟨rfl, rfl⟩] at hmine
    have hlies : lies s d name = some content := by
      rw [lies, if_pos hname]
      exact hcontent
    have hout : Out s d name u := out_of_renamed hname hmoved
    refine Prog.Ends.bind (ends_file_sole fun b v hmay => hmay.read) fun raw v hread => ?_
    obtain ⟨rfl, hraw, hreads⟩ := hread
    -- That the file was taken is told of before it is removed.
    refine Prog.Ends.bind (Prog.ends_call.mpr fun b w did => Prog.ends_pure.mpr did) fun _ w hw =>
      ?_
    obtain rfl : w = v := hw
    refine Prog.Ends.bind (ends_file_sole fun b x hmay => hout.removed hname hmay)
      fun _ x hremoved => ?_
    -- The rest is claimed from the store without this file.
    refine (ih (s := x) hnodup hready).bind fun res t htook => ?_
    obtain ⟨found, htook⟩ := htook
    have hback : ∀ handoff, raw.toOption.bind Handoff.decode = some handoff →
        Handoff.decode content = some handoff := by
      -- What was read, if anything, is what the file held.
      intro handoff hfound
      cases raw with
      | error why => cases hfound
      | ok bytes =>
        have hsame := hraw bytes rfl
        rw [hmine] at hsame
        cases hsame
        exact hfound
    have hwhole : ¬fails → raw.toOption.bind Handoff.decode = Handoff.decode content := by
      intro hno
      rw [hreads hno content hmine]
      rfl
    have hcons := htook.cons hremoved hnot hlies hback hwhole
    obtain ⟨claimed, unreadable⟩ := res
    dsimp only
    -- What reads back comes first among the handoffs; what does not adds to the unreadable ones.
    cases hfound : raw.toOption.bind Handoff.decode with
    | some handoff =>
      rw [hfound] at hcons
      exact Prog.ends_pure.mpr ⟨_, hcons⟩
    | none =>
      rw [hfound] at hcons
      exact Prog.ends_pure.mpr ⟨_, hcons⟩

/-! ### One claim -/

/-- What one claim does: it takes so many of the files that wait, reads back or counts each, and
takes no other. -/
structure Claims (fails : Prop) (d : Inbox) (limit : Nat) (s : Store Inbox UInt8)
    (res : List Handoff × Nat) (t : Store Inbox UInt8) : Prop where
  bounded : (waits s d \ waits t d).card ≤ limit
  kept : waits t d ⊆ waits s d
  /-- What it returns and counts as unreadable is what it takes, file by file. -/
  accounted : ∃ found : List (Text × Option Handoff), (found.map Prod.fst).Nodup ∧
    (found.map Prod.fst).toFinset = waits s d \ waits t d ∧
    res = (found.filterMap Prod.snd, found.countP fun one => one.2.isNone) ∧
    (∀ one ∈ found, ∀ handoff, one.2 = some handoff →
      (lies s d one.1).bind Handoff.decode = some handoff) ∧
    (¬fails → ∀ one ∈ found, one.2 = (lies s d one.1).bind Handoff.decode)
  /-- What it returns is in the order of the rounds. -/
  ordered : (res.1.map Handoff.round).Pairwise (· ≤ ·)
  /-- What it leaves is of no older round than what it takes, where no rename fails. -/
  oldest : ¬fails → ∀ left ∈ waits t d, ∀ gone ∈ waits s d \ waits t d, ∀ round round',
    Dated left round → Dated gone round' → round' ≤ round
  /-- What is being written stays as it is. -/
  unwritten : ∀ name, extension name = some writing → t.file d name = s.file d name
  /-- What is left lies as it did. -/
  same : ∀ name ∈ waits t d, lies t d name = lies s d name

private theorem dated_le {name name' : Text} {round round' : Nat} (h : Dated name round)
    (h' : Dated name' round') (hle : name ≤ name') : round ≤ round' := by
  obtain ⟨hround, rest, rfl⟩ := h
  obtain ⟨hround', rest', rfl⟩ := h'
  exact le_of_padded_append_le (by decide) hround hround' hle

/-- What was taken is what waited and waits no more. -/
theorem Took.taken {names : List Text} {res : List Handoff × Nat}
    {found : List (Text × Option Handoff)} (h : Took fails s d names res t found) :
    (found.map Prod.fst).toFinset = waits s d \ waits t d := by
  ext name
  rw [List.mem_toFinset, Finset.mem_sdiff, mem_waits, mem_waits, h.left]
  constructor
  · intro hmem
    rw [if_pos ⟨rfl, hmem⟩]
    obtain ⟨one, hone, rfl⟩ := List.mem_map.mp hmem
    obtain ⟨content, hcontent, -⟩ := h.read one hone
    rw [hcontent]
    exact ⟨rfl, Bool.false_ne_true⟩
  · rintro ⟨hwaits, hgone⟩
    by_contra hnot
    rw [if_neg fun hmem => hnot hmem.2] at hgone
    exact hgone hwaits

private theorem Took.kept {names : List Text} {res : List Handoff × Nat}
    {found : List (Text × Option Handoff)} (h : Took fails s d names res t found) :
    waits t d ⊆ waits s d := by
  intro name hname
  rw [mem_waits, h.left] at hname
  rw [mem_waits]
  split_ifs at hname
  · exact absurd hname Bool.false_ne_true
  · exact hname

private theorem Took.claims {limit : Nat} {sorted : List Text} {res : List Handoff × Nat}
    {found : List (Text × Option Handoff)} (h : Took fails s d (sorted.take limit) res t found)
    (hfiled : Filed s d) (hnodup : sorted.Nodup) (hsorted : sorted.Pairwise (· ≤ ·))
    (hall : ∀ name, name ∈ sorted ↔ name ∈ waits s d) : Claims fails d limit s res t where
  bounded := by
    rw [← h.taken]
    calc (found.map Prod.fst).toFinset.card
        ≤ (found.map Prod.fst).length := List.toFinset_card_le _
      _ ≤ (sorted.take limit).length := h.order.length_le
      _ ≤ limit := List.length_take_le _ _
  kept := h.kept
  accounted := by
    refine ⟨found, (hnodup.sublist (List.take_sublist _ _)).sublist h.order, h.taken, h.result,
      fun one hone handoff hsome => ?_, fun hno => (h.whole hno).2⟩
    obtain ⟨content, hcontent, hread⟩ := h.read one hone
    rw [hcontent]
    exact hread handoff hsome
  ordered := by
    have hround : found.Pairwise fun one other => ∀ handoff handoff', one.2 = some handoff →
        other.2 = some handoff' → handoff.round ≤ handoff'.round := by
      have hnames : found.Pairwise fun one other => one.1 ≤ other.1 :=
        List.pairwise_map.mp ((hsorted.sublist (List.take_sublist _ _)).sublist h.order)
      refine hnames.imp_of_mem fun hone hother hle handoff handoff' hsome hsome' => ?_
      obtain ⟨content, hcontent, hread⟩ := h.read _ hone
      obtain ⟨content', hcontent', hread'⟩ := h.read _ hother
      obtain ⟨round, hdated, hof⟩ := hfiled _ _ hcontent
      obtain ⟨round', hdated', hof'⟩ := hfiled _ _ hcontent'
      rw [hof handoff (hread handoff hsome), hof' handoff' (hread' handoff' hsome')]
      exact dated_le hdated hdated' hle
    rw [h.result, List.pairwise_map, List.pairwise_filterMap]
    exact hround.imp fun hle handoff hsome handoff' hsome' => hle handoff handoff' hsome hsome'
  oldest hno left hleft gone hgone round round' hround hround' := by
    have hsplit := List.take_append_drop limit sorted
    rw [← h.taken, List.mem_toFinset] at hgone
    have htaken : gone ∈ sorted.take limit := h.order.subset hgone
    -- What is left was not among those tried: each of these was taken.
    have hdropped : left ∈ sorted.drop limit := by
      have hwaited : left ∈ waits s d := h.kept hleft
      have hin : left ∈ sorted.take limit ++ sorted.drop limit := by
        rw [hsplit]
        exact (hall left).mpr hwaited
      apply (List.mem_append.mp hin).resolve_left
      intro htried
      have hmem := (h.whole hno).1 left htried (mem_waits.mp hwaited)
      rw [mem_waits, h.left, if_pos ⟨rfl, hmem⟩] at hleft
      exact Bool.false_ne_true hleft
    rw [← hsplit] at hsorted
    exact dated_le hround' hround ((List.pairwise_append.mp hsorted).2.2 gone htaken left hdropped)
  unwritten name := h.unwritten d name
  same name hname := by
    rw [mem_waits, h.left] at hname
    rw [h.left]
    split_ifs at hname ⊢
    · exact absurd hname Bool.false_ne_true
    · rfl

/-- A claim that could not list the inbox takes nothing. -/
theorem Claims.nothing (fails : Prop) (d : Inbox) (limit : Nat) (s : Store Inbox UInt8) :
    Claims fails d limit s ([], 0) s where
  bounded := by
    rw [Finset.sdiff_self]
    exact Nat.zero_le limit
  kept := Finset.Subset.refl _
  accounted := by
    refine ⟨[], List.nodup_nil, ?_, rfl, fun _ h => absurd h List.not_mem_nil,
      fun _ _ h => absurd h List.not_mem_nil⟩
    rw [Finset.sdiff_self]
    rfl
  ordered := .nil
  oldest _ _ _ gone hgone := by
    rw [Finset.sdiff_self] at hgone
    exact absurd hgone (Finset.notMem_empty gone)
  unwritten _ _ := rfl
  same _ _ := rfl

/-- **A claim**, whatever fails of its calls. -/
theorem ends_claim_sole (process limit : Nat) (hfiled : Filed s d) :
    (claim d process limit).Ends (sole fails) () (fun res t => Claims fails d limit s res t) s := by
  -- The names are listed first; whoever lists nothing claims nothing.
  refine Prog.Ends.bind (ends_file_sole fun b u hmay => hmay.list) fun b u hlist => ?_
  obtain ⟨rfl, hnames, -⟩ := hlist
  cases b with
  | error why => exact Prog.ends_pure.mpr (.nothing ..)
  | ok names =>
    obtain ⟨hnodup, hmem⟩ := hnames names rfl
    -- Sorting the names that wait leaves out none of them and adds none.
    have hperm : ((names.filter fun name => extension name = some ready).insertionSort (· ≤ ·)).Perm
        (names.filter fun name => extension name = some ready) := List.perm_insertionSort _ _
    have hall (name : Text) :
        name ∈ (names.filter fun name => extension name = some ready).insertionSort (· ≤ ·) ↔
        name ∈ waits u d := by
      rw [hperm.mem_iff, List.mem_filter, hmem, waits, Finset.mem_filter, Store.mem_names,
        decide_eq_true_iff]
    have hsortedNodup := hperm.nodup_iff.mpr (hnodup.filter fun name => extension name = some ready)
    have hready :
      ∀ name ∈ ((names.filter fun name =>
        extension name = some ready).insertionSort (· ≤ ·)).take limit,
        extension name = some ready := by
      intro name hname
      have hin := hperm.mem_iff.mp (List.mem_of_mem_take hname)
      exact of_decide_eq_true (List.mem_filter.mp hin).2
    -- The oldest of them, as many as the limit says, are then claimed in their order.
    refine (ends_claimEach_sole process _ (hsortedNodup.sublist (List.take_sublist _ _))
      hready).mono fun res t htook => ?_
    obtain ⟨found, htook⟩ := htook
    exact htook.claims hfiled hsortedNodup (List.pairwise_insertionSort _ _) hall

/-! ### One delivery -/

/-- What a delivery leaves where some of its calls may fail: a handoff under its name, or the inbox
as it was. -/
theorem ends_deliver_sole (handoff : Handoff) (sequence : Nat) :
    (deliver d handoff sequence).Ends (sole fails) ()
    (fun _ t => (∀ d' name, lies t d' name = lies s d' name) ∨
      ∀ d' name, lies t d' name =
        if d' = d ∧ name = handoff.fileName sequence ++ '.' :: ready then some handoff.encode
          else lies s d' name) s := by
  -- Until its rename a file has the extension of one on its way, so what waits stays as it was.
  have hwriting : extension (handoff.fileName sequence ++ '.' :: writing) ≠ some ready := by
    rw [handoff.extension_writing sequence]
    decide
  -- Making the directory, creating the file and writing it can each fail, and leave what waits.
  refine Prog.Ends.bind (ends_file_sole fun b u hmay => hmay.makeDir) fun b u hmake => ?_
  have hmade (d' : Inbox) (name : Text) : lies u d' name = lies s d' name := by
    unfold lies
    rw [hmake.1]
  cases b with
  | error why => exact Prog.ends_pure.mpr (.inl hmade)
  | ok _ =>
    refine Prog.Ends.bind (ends_file_sole fun b v hmay => hmay.create) fun b v hcreate => ?_
    rcases hcreate with ⟨⟨why, rfl⟩, rfl, -⟩ | ⟨rfl, hcreated⟩
    · exact Prog.ends_pure.mpr (.inl hmade)
    have hcreates (d' : Inbox) (name : Text) : lies v d' name = lies s d' name :=
      (lies_puts hcreated hwriting d' name).trans (hmade d' name)
    refine Prog.Ends.bind (ends_file_sole fun b w hmay => hmay.write (by rw [hcreated.self]; rfl))
      fun b w hwrite => ?_
    rcases hwrite with ⟨⟨why, rfl⟩, -, part, hpart⟩ | ⟨rfl, hwritten⟩
    · exact Prog.ends_pure.mpr
        (.inl fun d' name => (lies_puts hpart hwriting d' name).trans (hcreates d' name))
    have hwrites (d' : Inbox) (name : Text) : lies w d' name = lies s d' name :=
      (lies_puts hwritten hwriting d' name).trans (hcreates d' name)
    refine ends_file_sole fun b x hmay => ?_
    -- The rename alone changes what waits: it puts the file written there.
    rcases hmay.rename with ⟨-, rfl, -⟩ | ⟨-, content, hcontent, hmoved⟩
    · exact .inl hwrites
    · rw [hwritten.self] at hcontent
      obtain rfl := Option.some.inj hcontent
      refine .inr fun d' name => ?_
      rw [lies_moved hmoved (handoff.extension_ready sequence) hwriting, hwrites]

/-! ### Any order of both -/

/-- What the process does next. -/
inductive Act where
  | deliver (handoff : Handoff) (sequence : Nat)
  | claim (limit : Nat)

/-- The process does it, and what a claim comes to. -/
def Did (fails : Prop) (process : Nat) (d : Inbox) : Act → Store Inbox UInt8 → List Handoff × Nat →
    Store Inbox UInt8 → Prop
  | .deliver handoff sequence, s, _, t => ∃ b, (deliver d handoff sequence).Runs (sole fails) () s b
      t
  | .claim limit, s, res, t => (claim d process limit).Runs (sole fails) () s res t

/-- A handoff whose round ten digits hold, over a transport whose name is one word. -/
def Act.Fit : Act → Prop
  | .deliver handoff _ => handoff.round < 10 ^ 10 ∧ Handoff.Word handoff.transport
  | .claim _ => True

/-- The name a delivery leaves a handoff under. -/
def Act.delivers : Act → Option Text
  | .deliver handoff sequence => some (handoff.fileName sequence ++ '.' :: ready)
  | .claim _ => none

private theorem dated_fileName {handoff : Handoff} (hround : handoff.round < 10 ^ 10)
    (sequence : Nat) :
    Dated (handoff.fileName sequence ++ '.' :: ready) handoff.round := by
  refine ⟨hround, handoff.sender ++ '-' :: padded 10 sequence ++ '-' :: handoff.transport ++
    '-' :: handoff.contract.name ++ '.' :: ready, ?_⟩
  simp [Handoff.fileName]

variable {act : Act} {res : List Handoff × Nat}

/-- What waits after is what waited, or what was just delivered. -/
theorem Did.waits (hfiled : Filed s d) (h : Did fails process d act s res t) {name : Text}
    (hname : name ∈ waits t d) :
    name ∈ Inbox.waits s d ∨ act.delivers = some name := by
  cases act with
  | claim limit => exact .inl ((ends_claim_sole process limit hfiled _ _ h).kept hname)
  | deliver handoff sequence =>
    obtain ⟨b, hruns⟩ := h
    rw [mem_waits] at hname ⊢
    rcases ends_deliver_sole handoff sequence _ _ hruns with hsame | hput
    · rw [hsame] at hname
      exact .inl hname
    · rw [hput] at hname
      split_ifs at hname with hof
      · exact .inr (congrArg some hof.2.symm)
      · exact .inl hname

/-- **Every file that waits stays of a round.** -/
theorem Did.filed (hfiled : Filed s d) (hfit : act.Fit) (h : Did fails process d act s res t) :
    Filed t d := by
  intro name content hlies
  cases act with
  -- A claim leaves what still waits as it was.
  | claim limit =>
    have hclaims := ends_claim_sole process limit hfiled _ _ h
    have hname : name ∈ Inbox.waits t d := by
      rw [mem_waits, hlies]
      rfl
    rw [hclaims.same name hname] at hlies
    exact hfiled name content hlies
  | deliver handoff sequence =>
    obtain ⟨b, hruns⟩ := h
    -- A delivery leaves what waits as it was, or puts one file whose name says its round.
    rcases ends_deliver_sole handoff sequence _ _ hruns with hsame | hput
    · rw [hsame] at hlies
      exact hfiled name content hlies
    · rw [hput] at hlies
      split_ifs at hlies with hof
      · obtain rfl := Option.some.inj hlies
        rw [hof.2]
        exact ⟨handoff.round, dated_fileName hfit.1 sequence,
          fun back hback => Handoff.round_of_decode hfit.2 hback⟩
      · exact hfiled name content hlies

/-- **Oldest rounds first.** Whatever one process delivers and claims, in any order, and whatever
fails: each claim takes so many of the files that wait, oldest first, accounts for each, and leaves
what is being written; and a name two claims take was delivered between them. -/
theorem claim_order {n : ℕ} {stores : ℕ → Store Inbox UInt8} {acts : ℕ → Act}
    {results : ℕ → List Handoff × Nat} (hstart : Filed (stores 0) d) (hfit : ∀ k < n, (acts k).Fit)
    (hdid : ∀ k < n, Did fails process d (acts k) (stores k) (results k) (stores (k + 1))) :
    (∀ k < n, ∀ limit, acts k = .claim limit →
      Claims fails d limit (stores k) (results k) (stores (k + 1))) ∧
      ∀ i j, i < j → j < n → ∀ name ∈ waits (stores i) d \ waits (stores (i + 1)) d,
        name ∈ waits (stores j) d \ waits (stores (j + 1)) d → ∃ k, i < k ∧ k < j ∧
        (acts k).delivers = some name := by
  -- every act keeps the inbox in order
  have hfiled : ∀ k ≤ n, Filed (stores k) d := by
    intro k
    induction k with
    | zero => exact fun _ => hstart
    | succ k ih => exact fun hlt => (hdid k hlt).filed (ih (Nat.le_of_succ_le hlt)) (hfit k hlt)
  constructor
  · intro k hk limit hclaim
    have hrun := hdid k hk
    rw [hclaim] at hrun
    exact ends_claim_sole process limit (hfiled k hk.le) _ _ hrun
  · -- Between the two the name came to wait again.
    intro i j hij hj name hgone hagain
    by_contra hnone
    have hout : ∀ k, i < k → k ≤ j → name ∉ waits (stores k) d := by
      intro k hik
      induction k, hik using Nat.le_induction with
      | base => exact fun _ => (Finset.mem_sdiff.mp hgone).2
      | succ k hle ih =>
        intro hkj hwaits
        have hlt : k < n := (Nat.lt_of_succ_le hkj).trans hj
        rcases (hdid k hlt).waits (hfiled k hlt.le) hwaits with hbefore | hdelivered
        · exact ih (Nat.le_of_succ_le hkj) hbefore
        · exact hnone ⟨k, hle, hkj, hdelivered⟩
    exact hout j hij le_rfl (Finset.mem_sdiff.mp hagain).1

/-! ### Two senders and a file that cannot be read -/

section Mixed

/-- What a call comes to where nothing fails but what cannot be done. -/
def plainly : ⦃β : Type⦄ → RelayOp β → Store Inbox UInt8 → β × Store Inbox UInt8
  | _, .file op _, s => op.run s
  | _, .now, s => (0, s)
  | _, .refuses .., s => (none, s)
  | _, .exchange .., s => (.failed [], s)
  | _, .route _, s => (.ok true, s)
  | _, .released, s => ([], s)
  | _, .done .., s => ((), s)
  | _, .taken, s => ([], s)
  | _, .tell _, s => ((), s)

private theorem sole_plainly (fails : Prop) ⦃β : Type⦄ (op : RelayOp β) (s : Store Inbox UInt8) :
    sole fails () op s (plainly op s).1 (plainly op s).2 := by
  cases op with
  | file op note => exact .inl (op.does_run s)
  | _ => rfl

def mixedInbox : Inbox := (['n'], .process)

def older : Handoff := ⟨['t'], .json, 1, ['a'], [10]⟩

def newer : Handoff := ⟨['t'], .xml, 3, ['b'], []⟩

/-- A file of the round between the two that is no handoff. -/
def unreadableName : Text := padded 10 2 ++ '-' :: ['z'] ++ '.' :: ready

def mixedBefore : Store Inbox UInt8 :=
  Store.empty.set mixedInbox ((∅ : Dir UInt8).insert unreadableName [0])

/-- The newer handoff delivered, then the older, and then claims of two. -/
def mixed : ℕ → Act
  | 0 => .deliver newer 1
  | 1 => .deliver older 7
  | _ + 2 => .claim 2

/-- The inbox before each of them. -/
def mixedStore : ℕ → Store Inbox UInt8
  | 0 => mixedBefore
  | k + 1 =>
    match mixed k with
    | .deliver handoff sequence =>
      ((deliver mixedInbox handoff sequence).played plainly (mixedStore k)).2
    | .claim limit => ((claim mixedInbox 1 limit).played plainly (mixedStore k)).2

/-- What each claim comes to. -/
def mixedResult (k : ℕ) : List Handoff × Nat :=
  ((claim mixedInbox 1 2).played plainly (mixedStore k)).1

private theorem did_mixed (k : ℕ) :
    Did False 1 mixedInbox (mixed k) (mixedStore k) (mixedResult k) (mixedStore (k + 1)) := by
  rcases k with _ | _ | k
  · exact ⟨_, Prog.runs_played (sole_plainly False) _ _⟩
  · exact ⟨_, Prog.runs_played (sole_plainly False) _ _⟩
  · exact Prog.runs_played (sole_plainly False) _ _

/-- The file that cannot be read is of a round, and no handoff. -/
theorem filed_mixedBefore : Filed mixedBefore mixedInbox := by
  intro name content hlies
  unfold lies at hlies
  split_ifs at hlies
  have hname : name = unreadableName := by
    by_contra hne
    rw [mixedBefore, Store.file_set_self, AList.lookup_insert_ne hne] at hlies
    cases hlies
  subst hname
  rw [mixedBefore, Store.file_set_self, AList.lookup_insert] at hlies
  obtain rfl := Option.some.inj hlies
  refine ⟨2, ⟨by decide, ['z'] ++ '.' :: ready, rfl⟩, fun handoff hdecode => ?_⟩
  have hnone : Handoff.decode [0] = none := by decide
  rw [hnone] at hdecode
  cases hdecode

/-- Of three files that wait the first claim takes the older handoff and the file that cannot be
read, and leaves the newer handoff to the next. -/
theorem claim_order_mixed :
    mixedResult 2 = ([older], 1) ∧ mixedResult 3 = ([newer], 0) ∧
      (∀ k < 4, ∀ limit, mixed k = .claim limit →
        Claims False mixedInbox limit (mixedStore k) (mixedResult k) (mixedStore (k + 1))) ∧
      ∀ i j, i < j → j < 4 →
        ∀ name ∈ waits (mixedStore i) mixedInbox \ waits (mixedStore (i + 1)) mixedInbox,
          name ∈ waits (mixedStore j) mixedInbox \ waits (mixedStore (j + 1)) mixedInbox →
            ∃ k, i < k ∧ k < j ∧ (mixed k).delivers = some name := by
  have hfit : ∀ k < 4, (mixed k).Fit := by
    intro k _
    rcases k with _ | _ | k
    · exact ⟨by decide, by decide, by decide⟩
    · exact ⟨by decide, by decide, by decide⟩
    · trivial
  refine ⟨by decide +kernel, by decide +kernel, ?_⟩
  exact claim_order filed_mixedBefore hfit fun k _ => did_mixed k

end Mixed

end Inbox

end XmipEssentials
