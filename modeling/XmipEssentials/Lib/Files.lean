import Mathlib.Data.Finset.Card
import Mathlib.Data.List.AList
import XmipEssentials.Lib.Text

/-!
# A shared file store

Directories of named files, and the calls programs make on them. Each call is one atomic step and
answers `ok` or why not (`FileOp.Does`): a file is created anew by one creator only, a rename moves
the content and replaces what had the new name, and a listing comes in any order. Where calls may
fail for reasons of their own, `FileOp.May` adds those answers; a write that fails may leave part of
its content.

What a call does to the store is read off through `Store.file`, the content of one file, and the
lemmas beside each change: `file_set_self`, `file_insert`, `file_erase`.
-/

namespace Files

variable {κ γ : Type}

/-- The files of one directory. -/
abbrev Dir (γ : Type) : Type := AList fun _ : Text => List γ

/-- The directories there are, each with its files. -/
def Store (κ γ : Type) : Type := κ → Option (Dir γ)

namespace Store

/-- No directory at all. -/
def empty : Store κ γ := fun _ => none

/-- The content of a file. -/
def file (s : Store κ γ) (d : κ) (name : Text) : Option (List γ) := (s d).bind (·.lookup name)

@[simp] theorem file_empty (d : κ) (name : Text) : (empty : Store κ γ).file d name = none := rfl

theorem file_eq {s : Store κ γ} {d : κ} {dir : Dir γ} (h : s d = some dir) (name : Text) :
    s.file d name = dir.lookup name := by
  rw [file, h, Option.bind_some]

variable [DecidableEq κ]

/-- The store with the directory `d` as `dir`. -/
def set (s : Store κ γ) (d : κ) (dir : Dir γ) : Store κ γ := Function.update s d (some dir)

@[simp] theorem set_self (s : Store κ γ) (d : κ) (dir : Dir γ) : s.set d dir d = some dir :=
  Function.update_self ..

@[simp] theorem set_of_ne {s : Store κ γ} {d d' : κ} {dir : Dir γ} (h : d' ≠ d) :
    s.set d dir d' = s d' := Function.update_of_ne h ..

/-- The store without the directory `d`. -/
def drop (s : Store κ γ) (d : κ) : Store κ γ := Function.update s d none

@[simp] theorem drop_self (s : Store κ γ) (d : κ) : s.drop d d = none := Function.update_self ..

@[simp] theorem drop_of_ne {s : Store κ γ} {d d' : κ} (h : d' ≠ d) : s.drop d d' = s d' :=
  Function.update_of_ne h ..

theorem set_set (s : Store κ γ) (d : κ) (a b : Dir γ) : (s.set d a).set d b = s.set d b :=
  Function.update_idem _ _ _

@[simp] theorem file_set_of_ne {s : Store κ γ} {d d' : κ} {dir : Dir γ} {name : Text}
    (h : d' ≠ d) : (s.set d dir).file d' name = s.file d' name := by
  rw [file, set_of_ne h, file]

@[simp] theorem file_set_self {s : Store κ γ} {d : κ} {dir : Dir γ} {name : Text} :
    (s.set d dir).file d name = dir.lookup name := by
  rw [file, set_self, Option.bind_some]

/-- One file written: every other is as it was. -/
theorem file_insert {s : Store κ γ} {d : κ} {dir : Dir γ} (h : s d = some dir) (name : Text)
    (content : List γ) (d' : κ) (name' : Text) :
    (s.set d (dir.insert name content)).file d' name' =
      if d' = d ∧ name' = name then some content else s.file d' name' := by
  by_cases hd : d' = d
  · subst hd
    by_cases hn : name' = name
    · subst hn
      simp
    · rw [if_neg (fun hc => hn hc.2), file_set_self, AList.lookup_insert_ne hn, file_eq h]
  · rw [if_neg (fun hc => hd hc.1), file_set_of_ne hd]

/-- One file removed: every other is as it was. -/
theorem file_erase {s : Store κ γ} {d : κ} {dir : Dir γ} (h : s d = some dir) (name : Text)
    (d' : κ) (name' : Text) :
    (s.set d (dir.erase name)).file d' name' =
      if d' = d ∧ name' = name then none else s.file d' name' := by
  by_cases hd : d' = d
  · subst hd
    by_cases hn : name' = name
    · subst hn
      simp
    · rw [if_neg (fun hc => hn hc.2), file_set_self, AList.lookup_erase_ne hn, file_eq h]
  · rw [if_neg (fun hc => hd hc.1), file_set_of_ne hd]

end Store

/-! ### Calls -/

/-- A call on the store, by what it answers when it succeeds. -/
inductive FileOp (κ γ : Type) : Type → Type where
  /-- Make the directory, if it is not there. -/
  | makeDir (d : κ) : FileOp κ γ Unit
  /-- Make the file, or empty the one there. -/
  | create (d : κ) (name : Text) : FileOp κ γ Unit
  /-- Make the file, where there is none. -/
  | createNew (d : κ) (name : Text) : FileOp κ γ Unit
  /-- Write an open file's content. -/
  | write (d : κ) (name : Text) (content : List γ) : FileOp κ γ Unit
  /-- Give the file `old` the name `new`, in place of any file of that name. -/
  | rename (d : κ) (old new : Text) : FileOp κ γ Unit
  /-- The names in the directory. -/
  | list (d : κ) : FileOp κ γ (List Text)
  /-- The file's content. -/
  | read (d : κ) (name : Text) : FileOp κ γ (List γ)
  /-- Remove the file. -/
  | remove (d : κ) (name : Text) : FileOp κ γ Unit

namespace FileOp

/-- The directory a call is on. -/
def dir : {β : Type} → FileOp κ γ β → κ
  | _, .makeDir d | _, .create d _ | _, .createNew d _ | _, .write d _ _ | _, .rename d _ _
  | _, .list d | _, .read d _ | _, .remove d _ => d

variable [DecidableEq κ]

/-- What a call does where nothing fails but what cannot be done: it answers `b` and leaves `s'`. -/
def Does : {β : Type} → FileOp κ γ β → Store κ γ → Except Text β → Store κ γ → Prop
  | _, .makeDir d, s, b, s' => b = .ok () ∧ s' = s.set d ((s d).getD ∅)
  | _, .create d name, s, b, s' =>
    match s d with
    | some dir => b = .ok () ∧ s' = s.set d (dir.insert name [])
    | none => (∃ why, b = .error why) ∧ s' = s
  | _, .createNew d name, s, b, s' =>
    match s d with
    | some dir =>
      if name ∈ dir then (∃ why, b = .error why) ∧ s' = s
      else b = .ok () ∧ s' = s.set d (dir.insert name [])
    | none => (∃ why, b = .error why) ∧ s' = s
  | _, .write d name content, s, b, s' =>
    match s d with
    | some dir =>
      if name ∈ dir then b = .ok () ∧ s' = s.set d (dir.insert name content)
      -- The open file is written whether or not a name still leads to it.
      else b = .ok () ∧ s' = s
    | none => b = .ok () ∧ s' = s
  | _, .rename d old new, s, b, s' =>
    match s d with
    | some dir =>
      match dir.lookup old with
      | some content => b = .ok () ∧ s' = s.set d ((dir.erase old).insert new content)
      | none => (∃ why, b = .error why) ∧ s' = s
    | none => (∃ why, b = .error why) ∧ s' = s
  | _, .list d, s, b, s' =>
    match s d with
    | some dir => (∃ names : List Text, names.Perm dir.keys ∧ b = .ok names) ∧ s' = s
    | none => (∃ why, b = .error why) ∧ s' = s
  | _, .read d name, s, b, s' =>
    match s.file d name with
    | some content => b = .ok content ∧ s' = s
    | none => (∃ why, b = .error why) ∧ s' = s
  | _, .remove d name, s, b, s' =>
    match s d with
    | some dir =>
      if name ∈ dir then b = .ok () ∧ s' = s.set d (dir.erase name)
      else (∃ why, b = .error why) ∧ s' = s
    | none => (∃ why, b = .error why) ∧ s' = s

/-- What a call may leave where it fails for a reason of its own: the store as it was, or part of
what it wrote. -/
def Fails : {β : Type} → FileOp κ γ β → Store κ γ → Except Text β → Store κ γ → Prop
  | _, .write d name content, s, b, s' =>
    (∃ why, b = .error why) ∧
      (s' = s ∨ ∃ dir part, s d = some dir ∧ name ∈ dir ∧ part <+: content ∧
        s' = s.set d (dir.insert name part))
  | _, _, s, b, s' => (∃ why, b = .error why) ∧ s' = s

/-- What a call may do, where `fails` says whether calls fail for reasons of their own. -/
def May (fails : Prop) {β : Type} (op : FileOp κ γ β) (s : Store κ γ) (b : Except Text β)
    (s' : Store κ γ) : Prop :=
  op.Does s b s' ∨ (fails ∧ op.Fails s b s')

/-- A call made where nothing fails but what cannot be done: its answer, and the store it leaves. -/
def run : {β : Type} → FileOp κ γ β → Store κ γ → Except Text β × Store κ γ
  | _, .makeDir d, s => (.ok (), s.set d ((s d).getD ∅))
  | _, .create d name, s =>
    match s d with
    | some dir => (.ok (), s.set d (dir.insert name []))
    | none => (.error [], s)
  | _, .createNew d name, s =>
    match s d with
    | some dir => if name ∈ dir then (.error [], s) else (.ok (), s.set d (dir.insert name []))
    | none => (.error [], s)
  | _, .write d name content, s =>
    match s d with
    | some dir => if name ∈ dir then (.ok (), s.set d (dir.insert name content)) else (.ok (), s)
    | none => (.ok (), s)
  | _, .rename d old new, s =>
    match s d with
    | some dir =>
      match dir.lookup old with
      | some content => (.ok (), s.set d ((dir.erase old).insert new content))
      | none => (.error [], s)
    | none => (.error [], s)
  | _, .list d, s =>
    match s d with
    | some dir => (.ok dir.keys, s)
    | none => (.error [], s)
  | _, .read d name, s =>
    match s.file d name with
    | some content => (.ok content, s)
    | none => (.error [], s)
  | _, .remove d name, s =>
    match s d with
    | some dir => if name ∈ dir then (.ok (), s.set d (dir.erase name)) else (.error [], s)
    | none => (.error [], s)

/-- It is what the call does. -/
theorem does_run {β : Type} (op : FileOp κ γ β) (s : Store κ γ) :
    op.Does s (op.run s).1 (op.run s).2 := by
  -- Each call looks a directory or a file up, and does one thing where it is there.
  cases op with
  | makeDir d => exact ⟨rfl, rfl⟩
  | create d name => cases h : s d with | none | some dir => simp [Does, run, h]
  | createNew d name =>
    cases h : s d with
    | none => simp [Does, run, h]
    | some dir => by_cases hn : name ∈ dir <;> simp [Does, run, h, hn]
  | write d name content =>
    cases h : s d with
    | none => simp [Does, run, h]
    | some dir => by_cases hn : name ∈ dir <;> simp [Does, run, h, hn]
  | rename d old new =>
    cases h : s d with
    | none => simp [Does, run, h]
    | some dir => cases hc : dir.lookup old with | none | some content => simp [Does, run, h, hc]
  | list d => cases h : s d with | none | some dir => simp [Does, run, h]
  | read d name => cases h : s.file d name with | none | some content => simp [Does, run, h]
  | remove d name =>
    cases h : s d with
    | none => simp [Does, run, h]
    | some dir => by_cases hn : name ∈ dir <;> simp [Does, run, h, hn]

/-- Every call answers. -/
theorem exists_does {β : Type} (op : FileOp κ γ β) (s : Store κ γ) : ∃ b s', op.Does s b s' :=
  ⟨_, _, op.does_run s⟩

end FileOp

/-! ### What each call comes to -/

section Calls

variable [DecidableEq κ] {fails : Prop} {s s' : Store κ γ} {d : κ} {name old new : Text}
    {content : List γ}

/-- The store is as it was, the file `name` of `d` aside, which is now `c`. -/
def Store.Puts (s : Store κ γ) (d : κ) (name : Text) (c : Option (List γ)) (s' : Store κ γ) :
    Prop :=
  ∀ d' name', s'.file d' name' = if d' = d ∧ name' = name then c else s.file d' name'

theorem Store.Puts.self {c : Option (List γ)} (h : s.Puts d name c s') : s'.file d name = c := by
  rw [h, if_pos ⟨rfl, rfl⟩]

theorem Store.Puts.other {c : Option (List γ)} (h : s.Puts d name c s') {d' : κ} {name' : Text}
    (hne : ¬(d' = d ∧ name' = name)) : s'.file d' name' = s.file d' name' := by
  rw [h, if_neg hne]

omit [DecidableEq κ] in
/-- A call that could not be done answers why, and changes nothing, whether or not calls fail for
reasons of their own. -/
private theorem refused {α : Type} {b : Except Text α}
    (h : ((∃ why, b = .error why) ∧ s' = s) ∨ (fails ∧ (∃ why, b = .error why) ∧ s' = s)) :
    (∃ why, b = .error why) ∧ s' = s := by
  rcases h with h | h
  · exact h
  · exact h.2

omit [DecidableEq κ] in
theorem mem_dir_iff {dir : Dir γ} (h : s d = some dir) :
    name ∈ dir ↔ (s.file d name).isSome := by
  rw [Store.file_eq h, AList.lookup_isSome]

/-- A call leaves the store as it was, or sets the directory it is on. -/
theorem FileOp.May.changes {β : Type} {op : FileOp κ γ β} {b : Except Text β}
    (h : op.May fails s b s') : s' = s ∨ ∃ dir, s' = s.set op.dir dir := by
  -- A call that goes through sets its own directory or nothing; one that fails may write a part.
  rcases h with h | ⟨-, h⟩
  · cases op <;> simp only [FileOp.Does] at h
    case makeDir => exact .inr ⟨_, h.2⟩
    case read => split at h <;> exact .inl h.2
    case list => split at h <;> exact .inl h.2
    all_goals
      split at h
      · first
          | exact .inr ⟨_, h.2⟩
          | (split at h <;> first | exact .inl h.2 | exact .inr ⟨_, h.2⟩)
      · exact .inl h.2
  · cases op <;> simp only [FileOp.Fails] at h
    case write =>
      rcases h.2 with h | ⟨dir, part, -, -, -, h⟩
      · exact .inl h
      · exact .inr ⟨_, h⟩
    all_goals exact .inl h.2

/-- A call changes no other directory than the one it is on. -/
theorem FileOp.May.other {β : Type} {op : FileOp κ γ β} {b : Except Text β}
    (h : op.May fails s b s') (hd : d ≠ op.dir) : s' d = s d := by
  rcases h.changes with rfl | ⟨dir, rfl⟩
  · rfl
  · exact Store.set_of_ne hd

/-- No call takes a directory away. -/
theorem FileOp.May.keeps_dir {β : Type} {op : FileOp κ γ β} {b : Except Text β}
    (h : op.May fails s b s') (hd : (s d).isSome) : (s' d).isSome := by
  rcases h.changes with rfl | ⟨dir, rfl⟩
  · exact hd
  · by_cases hne : d = op.dir
    · subst hne
      simp
    · rwa [Store.set_of_ne hne]

theorem FileOp.May.makeDir {b : Except Text Unit} (h : (FileOp.makeDir d).May fails s b s') :
    (∀ d' name', s'.file d' name' = s.file d' name') ∧ (b = .ok () → (s' d).isSome) ∧
      (¬fails → b = .ok ()) := by
  rcases h with ⟨rfl, rfl⟩ | ⟨hf, ⟨why, rfl⟩, rfl⟩
  · refine ⟨fun d' name' => ?_, fun _ => by simp, fun _ => rfl⟩
    by_cases hd : d' = d
    · subst hd
      rw [Store.file_set_self, Store.file]
      cases s d' <;> simp
    · rw [Store.file_set_of_ne hd]
  · exact ⟨fun _ _ => rfl, nofun, fun hno => absurd hf hno⟩

theorem FileOp.May.create {b : Except Text Unit} (h : (FileOp.create d name).May fails s b s') :
    ((∃ why, b = .error why) ∧ s' = s ∧ (¬fails → s d = none)) ∨
      (b = .ok () ∧ s.Puts d name (some []) s') := by
  simp only [FileOp.May, FileOp.Does, FileOp.Fails] at h
  cases hd : s d with
  | none =>
    rw [hd] at h
    obtain ⟨hb, hs⟩ := refused h
    exact .inl ⟨hb, hs, fun _ => rfl⟩
  | some dir =>
    rw [hd] at h
    rcases h with ⟨rfl, rfl⟩ | ⟨hf, hb, rfl⟩
    · exact .inr ⟨rfl, Store.file_insert hd _ _⟩
    · exact .inl ⟨hb, rfl, fun hno => absurd hf hno⟩

theorem FileOp.May.createNew {b : Except Text Unit}
    (h : (FileOp.createNew d name).May fails s b s') :
    ((∃ why, b = .error why) ∧ s' = s ∧ (¬fails → s d = none ∨ (s.file d name).isSome)) ∨
      (b = .ok () ∧ s.file d name = none ∧ s.Puts d name (some []) s') := by
  simp only [FileOp.May, FileOp.Does, FileOp.Fails] at h
  -- Only a directory that is there can take a file, and only a name that is not taken.
  cases hd : s d with
  | none =>
    rw [hd] at h
    obtain ⟨hb, hs⟩ := refused h
    exact .inl ⟨hb, hs, fun _ => .inl rfl⟩
  | some dir =>
    rw [hd] at h
    dsimp only at h
    by_cases hn : name ∈ dir
    · rw [if_pos hn] at h
      obtain ⟨hb, hs⟩ := refused h
      exact .inl ⟨hb, hs, fun _ => .inr ((mem_dir_iff hd).mp hn)⟩
    · rw [if_neg hn] at h
      rcases h with ⟨rfl, rfl⟩ | ⟨hf, hb, rfl⟩
      · refine .inr ⟨rfl, ?_, Store.file_insert hd _ _⟩
        rw [Store.file_eq hd, AList.lookup_eq_none]
        exact hn
      · exact .inl ⟨hb, rfl, fun hno => absurd hf hno⟩

/-- A write to a file that is there changes that file alone, and one that succeeds writes it
whole. -/
theorem FileOp.May.write {b : Except Text Unit}
    (h : (FileOp.write d name content).May fails s b s') (hfile : (s.file d name).isSome) :
    ((∃ why, b = .error why) ∧ fails ∧ ∃ part, s.Puts d name (some part) s') ∨
      (b = .ok () ∧ s.Puts d name (some content) s') := by
  -- The file is there, so its directory is; what fails may still write a part of the content.
  simp only [FileOp.May, FileOp.Does, FileOp.Fails] at h
  obtain ⟨old, hold⟩ := Option.isSome_iff_exists.mp hfile
  cases hd : s d with
  | none => simp [Store.file, hd] at hold
  | some dir =>
    have hn : name ∈ dir := (mem_dir_iff hd).mpr hfile
    rw [hd] at h
    dsimp only at h
    rw [if_pos hn] at h
    rcases h with ⟨rfl, rfl⟩ | ⟨hf, hb, rfl | ⟨dir', part, hdir', -, -, rfl⟩⟩
    · exact .inr ⟨rfl, Store.file_insert hd _ _⟩
    · refine .inl ⟨hb, hf, old, fun d' name' => ?_⟩
      split
      · next heq => rw [heq.1, heq.2, hold]
      · rfl
    · cases hdir'
      exact .inl ⟨hb, hf, part, Store.file_insert hd _ _⟩

/-- A write to a file that is not there changes nothing. -/
theorem FileOp.May.write_absent {b : Except Text Unit}
    (h : (FileOp.write d name content).May fails s b s') (hfile : s.file d name = none) :
    s' = s := by
  have habsent {dir : Dir γ} (hd : s d = some dir) : name ∉ dir := by
    rw [mem_dir_iff hd, hfile]
    exact Bool.false_ne_true
  -- Neither a write that goes through nor one that fails makes a file that is not there.
  simp only [FileOp.May, FileOp.Does, FileOp.Fails] at h
  rcases h with h | ⟨-, -, rfl | ⟨dir, part, hd, hn, -⟩⟩
  · cases hd : s d with
    | none =>
      rw [hd] at h
      exact h.2
    | some dir =>
      rw [hd] at h
      dsimp only at h
      rw [if_neg (habsent hd)] at h
      exact h.2
  · rfl
  · exact absurd hn (habsent hd)

/-- A rename moves the content, and replaces what had the new name. -/
theorem FileOp.May.rename {b : Except Text Unit}
    (h : (FileOp.rename d old new).May fails s b s') :
    ((∃ why, b = .error why) ∧ s' = s ∧ (¬fails → s.file d old = none)) ∨
      (b = .ok () ∧ ∃ content, s.file d old = some content ∧
        ∀ d' name', s'.file d' name' =
          if d' = d ∧ name' = new then some content
          else if d' = d ∧ name' = old then none else s.file d' name') := by
  -- Without its directory, or without the old file, the call is refused.
  simp only [FileOp.May, FileOp.Does, FileOp.Fails] at h
  cases hd : s d with
  | none =>
    rw [hd] at h
    obtain ⟨hb, hs⟩ := refused h
    exact .inl ⟨hb, hs, fun _ => by rw [Store.file, hd, Option.bind_none]⟩
  | some dir =>
    rw [hd] at h
    dsimp only at h
    cases hc : dir.lookup old with
    | none =>
      rw [hc] at h
      obtain ⟨hb, hs⟩ := refused h
      exact .inl ⟨hb, hs, fun _ => by rw [Store.file_eq hd, hc]⟩
    | some content =>
      rw [hc] at h
      rcases h with ⟨rfl, rfl⟩ | ⟨hf, hb, rfl⟩
      · -- The old name goes first, and the new one then takes its content.
        refine .inr ⟨rfl, content, by rw [Store.file_eq hd, hc], fun d' name' => ?_⟩
        have herase : (s.set d (dir.erase old)) d = some (dir.erase old) := Store.set_self ..
        rw [← Store.set_set s d (dir.erase old), Store.file_insert herase, Store.file_erase hd]
      · exact .inl ⟨hb, rfl, fun hno => absurd hf hno⟩

/-- A listing names every file of the directory once. -/
theorem FileOp.May.list {b : Except Text (List Text)} (h : (FileOp.list d).May fails s b s') :
    s' = s ∧ (∀ names, b = .ok names → names.Nodup ∧ ∀ n, n ∈ names ↔ (s.file d n).isSome) ∧
      (¬fails → (s d).isSome → ∃ names, b = .ok names) := by
  simp only [FileOp.May, FileOp.Does, FileOp.Fails] at h
  cases hd : s d with
  | none =>
    rw [hd] at h
    rcases h with ⟨⟨why, rfl⟩, rfl⟩ | ⟨-, ⟨why, rfl⟩, rfl⟩
    all_goals exact ⟨rfl, nofun, nofun⟩
  | some dir =>
    rw [hd] at h
    rcases h with ⟨⟨names, hperm, rfl⟩, rfl⟩ | ⟨hf, ⟨why, rfl⟩, rfl⟩
    · refine ⟨rfl, fun names' hb => ?_, fun _ _ => ⟨_, rfl⟩⟩
      cases hb
      refine ⟨hperm.symm.nodup dir.keys_nodup, fun n => ?_⟩
      rw [hperm.mem_iff, ← AList.mem_keys, mem_dir_iff hd]
    · exact ⟨rfl, nofun, fun hno => absurd hf hno⟩

theorem FileOp.May.read {b : Except Text (List γ)} (h : (FileOp.read d name).May fails s b s') :
    s' = s ∧ (∀ content, b = .ok content → s.file d name = some content) ∧
      (¬fails → ∀ content, s.file d name = some content → b = .ok content) := by
  simp only [FileOp.May, FileOp.Does, FileOp.Fails] at h
  cases hc : s.file d name with
  | none => grind
  | some content => grind

theorem FileOp.May.remove {b : Except Text Unit} (h : (FileOp.remove d name).May fails s b s') :
    ((∃ why, b = .error why) ∧ s' = s ∧ (¬fails → s.file d name = none)) ∨
      (b = .ok () ∧ (s.file d name).isSome ∧ s.Puts d name none s') := by
  -- Only a file that is there is removed.
  simp only [FileOp.May, FileOp.Does, FileOp.Fails] at h
  cases hd : s d with
  | none =>
    rw [hd] at h
    obtain ⟨hb, hs⟩ := refused h
    exact .inl ⟨hb, hs, fun _ => by rw [Store.file, hd, Option.bind_none]⟩
  | some dir =>
    rw [hd] at h
    dsimp only at h
    by_cases hn : name ∈ dir
    · rw [if_pos hn] at h
      rcases h with ⟨rfl, rfl⟩ | ⟨hf, hb, rfl⟩
      · exact .inr ⟨rfl, (mem_dir_iff hd).mp hn, Store.file_erase hd _⟩
      · exact .inl ⟨hb, rfl, fun hno => absurd hf hno⟩
    · rw [if_neg hn] at h
      obtain ⟨hb, hs⟩ := refused h
      refine .inl ⟨hb, hs, fun _ => ?_⟩
      rw [Store.file_eq hd, AList.lookup_eq_none]
      exact hn

/-! ### Which files there are -/

/-- The names in the directory. -/
def Store.names (s : Store κ γ) (d : κ) : Finset Text := ((s d).elim [] AList.keys).toFinset

omit [DecidableEq κ] in
theorem Store.mem_names : name ∈ s.names d ↔ (s.file d name).isSome := by
  rw [names, List.mem_toFinset]
  cases hd : s d with
  | none =>
    rw [file, hd]
    exact iff_of_false List.not_mem_nil Bool.false_ne_true
  | some dir => rw [Option.elim_some, ← AList.mem_keys, mem_dir_iff hd]

/-! ### How many files there are -/

/-- How many files the directory holds. -/
def Store.count (s : Store κ γ) (d : κ) : Nat := (s d).elim 0 fun dir => dir.keys.length

omit [DecidableEq κ] in
theorem Store.count_eq {dir : Dir γ} (h : s d = some dir) : s.count d = dir.keys.length := by
  rw [count, h, Option.elim_some]

/-- A name taken out of the names of a directory leaves one fewer, where it was there. -/
private theorem length_erase_keys (dir : Dir γ) (name : Text) :
    (dir.erase name).keys.length + (if name ∈ dir then 1 else 0) = dir.keys.length := by
  rw [AList.keys_erase]
  by_cases hn : name ∈ dir
  · have hmem : name ∈ dir.keys := AList.mem_keys.mp hn
    have hlength := @List.length_erase_of_mem _ instBEqOfDecidableEq _ _ _ hmem
    have hpos := List.length_pos_of_mem hmem
    rw [if_pos hn]
    omega
  · have hmem : name ∉ dir.keys := fun hmem => hn (AList.mem_keys.mpr hmem)
    rw [if_neg hn, @List.erase_of_not_mem _ instBEqOfDecidableEq _ _ _ hmem, Nat.add_zero]

/-- A file put in place of another counts once, and one put where there was none once more. -/
theorem Store.count_insert {dir : Dir γ} (h : s d = some dir) (name : Text) (content : List γ) :
    (s.set d (dir.insert name content)).count d =
      if (s.file d name).isSome then s.count d else s.count d + 1 := by
  have hlength := length_erase_keys dir name
  rw [AList.keys_erase] at hlength
  rw [count_eq (set_self ..), count_eq h, AList.keys_insert, List.length_cons]
  by_cases hn : name ∈ dir
  · rw [if_pos hn] at hlength
    rwa [if_pos ((mem_dir_iff h).mp hn)]
  · rw [if_neg hn, Nat.add_zero] at hlength
    rw [if_neg fun hsome => hn ((mem_dir_iff h).mpr hsome), hlength]

theorem FileOp.May.count_makeDir {b : Except Text Unit} (h : (FileOp.makeDir d).May fails s b s') :
    s'.count d = s.count d := by
  rcases h with ⟨rfl, rfl⟩ | ⟨-, -, rfl⟩
  · rw [Store.count_eq (Store.set_self ..), Store.count]
    cases s d <;> rfl
  · rfl

theorem FileOp.May.count_create {b : Except Text Unit}
    (h : (FileOp.create d name).May fails s b s') :
    ((∃ why, b = .error why) ∧ s' = s) ∨
      (b = .ok () ∧ s'.count d = if (s.file d name).isSome then s.count d else s.count d + 1) := by
  simp only [FileOp.May, FileOp.Does, FileOp.Fails] at h
  cases hd : s d with
  | none =>
    rw [hd] at h
    exact .inl (refused h)
  | some dir =>
    rw [hd] at h
    rcases h with ⟨rfl, rfl⟩ | ⟨-, hb, rfl⟩
    · exact .inr ⟨rfl, Store.count_insert hd _ _⟩
    · exact .inl ⟨hb, rfl⟩

theorem FileOp.May.count_write {b : Except Text Unit}
    (h : (FileOp.write d name content).May fails s b s') : s'.count d = s.count d := by
  -- What is written over was counted before.
  have hput {dir : Dir γ} (hd : s d = some dir) (hn : name ∈ dir) (content : List γ) :
      (s.set d (dir.insert name content)).count d = s.count d := by
    rw [Store.count_insert hd, if_pos ((mem_dir_iff hd).mp hn)]
  simp only [FileOp.May, FileOp.Does, FileOp.Fails] at h
  rcases h with h | ⟨-, -, rfl | ⟨dir, part, hd, hn, -, rfl⟩⟩
  · cases hd : s d with
    | none =>
      rw [hd] at h
      rw [h.2]
    | some dir =>
      rw [hd] at h
      dsimp only at h
      by_cases hn : name ∈ dir
      · rw [if_pos hn] at h
        rw [h.2, hput hd hn]
      · rw [if_neg hn] at h
        rw [h.2]
  · rfl
  · exact hput hd hn part

theorem FileOp.May.count_remove {b : Except Text Unit}
    (h : (FileOp.remove d name).May fails s b s') :
    ((∃ why, b = .error why) ∧ s' = s) ∨ (b = .ok () ∧ s'.count d + 1 = s.count d) := by
  -- What is removed is one file less; a refusal leaves all of them.
  simp only [FileOp.May, FileOp.Does, FileOp.Fails] at h
  cases hd : s d with
  | none =>
    rw [hd] at h
    exact .inl (refused h)
  | some dir =>
    rw [hd] at h
    dsimp only at h
    by_cases hn : name ∈ dir
    · rw [if_pos hn] at h
      rcases h with ⟨rfl, rfl⟩ | ⟨-, hb, rfl⟩
      · refine .inr ⟨rfl, ?_⟩
        rw [Store.count_eq (Store.set_self ..), Store.count_eq hd, ← length_erase_keys dir name,
          if_pos hn]
      · exact .inl ⟨hb, rfl⟩
    · rw [if_neg hn] at h
      exact .inl (refused h)

end Calls

end Files
