import XmipEssentials.LockStep.Inboxes

/-!
# The inboxes told by what was given

Where nothing fails, what waits in the inboxes is what was given over and not claimed (`Holding`): a
delivery gives one more (`Holding.ends_deliver`), and a claim within its limit takes all that was
given to the inbox (`Holding.ends_claim`).
-/

namespace XmipEssentials

open Text Conc Files Inbox

/-- What waits in the inboxes is what was given, each under its name. -/
structure Holding (s : Store Inbox UInt8) (given : List Given) : Prop where
  lies : ∀ d name content, lies s d name = some content ↔
    ∃ g ∈ given, g.dest = d ∧ g.name = name ∧ g.handoff.encode = content
  distinct : (given.map fun g => (g.dest, g.name)).Nodup

/-- What was given to an inbox. -/
def givenTo (d : Inbox) (given : List Given) : List Given := given.filter fun g => g.dest = d

/-- What was given to any other. -/
def givenElse (d : Inbox) (given : List Given) : List Given := given.filter fun g => g.dest ≠ d

/-- What a waiting file reads back as. -/
def Given.back (g : Given) : Option Handoff := Handoff.decode g.handoff.encode

variable {s t : Store Inbox UInt8} {given given' : List Given} {d : Inbox}

theorem mem_givenTo {g : Given} : g ∈ givenTo d given ↔ g ∈ given ∧ g.dest = d := by
  rw [givenTo, List.mem_filter, decide_eq_true_iff]

theorem mem_givenElse {g : Given} : g ∈ givenElse d given ↔ g ∈ given ∧ g.dest ≠ d := by
  rw [givenElse, List.mem_filter, decide_eq_true_iff]

namespace Holding

/-- Empty inboxes hold nothing. -/
theorem nil (hempty : ∀ d, waits s d = ∅) : Holding s [] := by
  refine ⟨fun d name content => ?_, List.nodup_nil⟩
  constructor
  · intro hlies
    have hmem : name ∈ waits s d := mem_waits.mpr (by rw [hlies]; rfl)
    rw [hempty d] at hmem
    exact absurd hmem (Finset.notMem_empty name)
  · rintro ⟨g, hg, -⟩
    exact absurd hg List.not_mem_nil

private theorem self (h : Holding s given) {g : Given} (hg : g ∈ given) :
    Inbox.lies s g.dest g.name = some g.handoff.encode :=
  (h.lies _ _ _).mpr ⟨g, hg, rfl, rfl, rfl⟩

/-- One more given, under a name that none of its inbox waits under. -/
theorem cons (h : Holding s given) {g : Given}
    (hfresh : ∀ g' ∈ given, g'.dest = g.dest → g'.name ≠ g.name)
    (hlies : ∀ d name, Inbox.lies t d name =
      if d = g.dest ∧ name = g.name then some g.handoff.encode else Inbox.lies s d name) :
    Holding t (g :: given) := by
  have hnot : ¬∃ g' ∈ given, g'.dest = g.dest ∧ g'.name = g.name := by
    rintro ⟨g', hg', hdest, hname⟩
    exact hfresh g' hg' hdest hname
  refine ⟨fun d name content => ?_, ?_⟩
  · rw [hlies, List.exists_mem_cons_iff]
    -- the one file just given, or a file that lay there before
    by_cases hat : d = g.dest ∧ name = g.name
    · obtain ⟨rfl, rfl⟩ := hat
      rw [if_pos ⟨rfl, rfl⟩, Option.some_inj]
      constructor
      · intro hsame
        exact .inl ⟨rfl, rfl, hsame⟩
      · rintro (⟨-, -, hsame⟩ | ⟨g', hg', hdest, hname, -⟩)
        · exact hsame
        · exact absurd hname (hfresh g' hg' hdest)
    · rw [if_neg hat, h.lies]
      refine (or_iff_right ?_).symm
      rintro ⟨rfl, rfl, -⟩
      exact hat ⟨rfl, rfl⟩
  · rw [List.map_cons, List.nodup_cons]
    -- no other file has its name in its inbox
    refine ⟨fun hmem => hnot ?_, h.distinct⟩
    obtain ⟨g', hg', hkey⟩ := List.mem_map.mp hmem
    exact ⟨g', hg', congrArg Prod.fst hkey, congrArg Prod.snd hkey⟩

/-- The names of what was given to one inbox are distinct. -/
theorem nodup_names (h : Holding s given) (d : Inbox) :
    ((givenTo d given).map Given.name).Nodup := by
  have hkeys : ((givenTo d given).map fun g => (g.dest, g.name)).Nodup :=
    h.distinct.sublist (List.filter_sublist.map _)
  rw [List.nodup_map_iff_inj_on hkeys.of_map]
  intro g hg g' hg' hname
  have hdest := (mem_givenTo.mp hg).2.trans (mem_givenTo.mp hg').2.symm
  exact List.inj_on_of_nodup_map hkeys hg hg' (Prod.ext hdest hname)

/-- What waits in an inbox are the names of what was given to it. -/
theorem waits_eq (h : Holding s given) (d : Inbox) :
    waits s d = ((givenTo d given).map Given.name).toFinset := by
  ext name
  rw [mem_waits, Option.isSome_iff_exists, List.mem_toFinset, List.mem_map]
  constructor
  · rintro ⟨content, hlies⟩
    obtain ⟨g, hg, hdest, hname, -⟩ := (h.lies _ _ _).mp hlies
    exact ⟨g, mem_givenTo.mpr ⟨hg, hdest⟩, hname⟩
  · rintro ⟨g, hg, rfl⟩
    obtain ⟨hin, rfl⟩ := mem_givenTo.mp hg
    exact ⟨_, h.self hin⟩

/-- All that was given to an inbox claimed. -/
theorem claimed (h : Holding s given) {names : List Text}
    (hnames : ∀ name, name ∈ names ↔ name ∈ (givenTo d given).map Given.name)
    (hlies : ∀ d' name, Inbox.lies t d' name = if d' = d ∧ name ∈ names then none
      else Inbox.lies s d' name) :
    Holding t (givenElse d given) := by
  refine ⟨fun d' name content => ?_, h.distinct.sublist (List.filter_sublist.map _)⟩
  rw [hlies]
  -- a name taken lies there no more; any other is as it was
  by_cases hat : d' = d ∧ name ∈ names
  · obtain ⟨rfl, hname⟩ := hat
    rw [if_pos ⟨rfl, hname⟩]
    apply iff_of_false (Option.some_ne_none content).symm
    rintro ⟨g, hg, hdest, -⟩
    exact (mem_givenElse.mp hg).2 hdest
  · rw [if_neg hat, h.lies]
    constructor
    · rintro ⟨g, hg, rfl, rfl, hcontent⟩
      -- what is left was given elsewhere, or it would have been taken
      refine ⟨g, mem_givenElse.mpr ⟨hg, fun hdest => hat ⟨hdest, (hnames _).mpr ?_⟩⟩, rfl, rfl,
        hcontent⟩
      exact List.mem_map_of_mem (mem_givenTo.mpr ⟨hg, hdest⟩)
    · rintro ⟨g, hg, hrest⟩
      exact ⟨g, (mem_givenElse.mp hg).1, hrest⟩

variable {exec : Exec Unit RelayOp (Store Inbox UInt8)} (hexec : WithinAlone exec)

include hexec

/-- **A delivery gives one more**, under a name that none of its inbox waits under. -/
theorem ends_deliver (h : Holding s given) (g : Given)
    (hfresh : ∀ g' ∈ given, g'.dest = g.dest → g'.name ≠ g.name) :
    (Inbox.deliver g.dest g.handoff g.sequence).Ends exec ()
    (fun b t => b = .ok () ∧ Holding t (g :: given)) s :=
  (Inbox.ends_deliver hexec g.handoff g.sequence).mono fun _ _ hdelivered =>
    ⟨hdelivered.1, h.cons hfresh hdelivered.2⟩

/-- **A claim within its limit takes all that was given to the inbox**, each as its file reads
back. -/
theorem ends_claim (h : Holding s given) (process : Nat) {limit : Nat}
    (hlimit : (givenTo d given).length ≤ limit) :
    (Inbox.claim d process limit).Ends exec () (fun claimed t =>
      claimed.1.Perm ((givenTo d given).filterMap Given.back) ∧
        Holding t (givenElse d given)) s := by
  refine (Inbox.ends_claim hexec process limit).mono fun claimed t hclaimed => ?_
  obtain ⟨names, hnodup, hin, hlength, hread, hlies⟩ := hclaimed
  have hwaits := h.waits_eq d
  have hcard : (waits s d).card = ((givenTo d given).map Given.name).length := by
    rw [hwaits, List.toFinset_card_of_nodup (h.nodup_names d)]
  -- Within the limit, the names claimed are all that wait.
  have hsub : names ⊆ (givenTo d given).map Given.name := by
    intro name hname
    have hmem := hin name hname
    rwa [hwaits, List.mem_toFinset] at hmem
  have hperm : names.Perm ((givenTo d given).map Given.name) := by
    apply (List.subperm_of_subset hnodup hsub).perm_of_length_le
    rw [hlength, hcard, List.length_map, Nat.min_eq_right hlimit]
  refine ⟨?_, h.claimed (fun name => hperm.mem_iff) hlies⟩
  have hback : ((givenTo d given).map Given.name).filterMap
    (fun name => (Inbox.lies s d name).bind Handoff.decode) =
      (givenTo d given).filterMap Given.back := by
    rw [List.filterMap_map]
    apply List.filterMap_congr
    intro g hg
    obtain ⟨hgiven, rfl⟩ := mem_givenTo.mp hg
    rw [Function.comp_apply, h.self hgiven]
    rfl
  rw [hread, ← hback]
  exact hperm.filterMap _

end Holding

end XmipEssentials
