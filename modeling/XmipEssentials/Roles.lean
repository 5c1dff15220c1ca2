import XmipEssentials.Placement

/-!
# A declaration as its roles

A declaration as four roles and whether the node may assume the internet, written and read as a
`--nodes` entry is: an instance of `Capability` on which rosters of concrete nodes are evaluated.
-/

namespace XmipEssentials

open Text

/-- The roles a node declared. -/
structure Roles where
  receiving : Bool
  processing : Bool
  sending : Bool
  executing : Bool
  online : Bool
  deriving DecidableEq, Repr

namespace Roles

/-- No role, offline. -/
def nothing : Roles := ⟨false, false, false, false, false⟩

/-- The roles' names. -/
def words (r : Roles) : List Text :=
  (if r.receiving then ["receiving".toList] else []) ++
    (if r.processing then ["processing".toList] else []) ++
    (if r.sending then ["sending".toList] else []) ++
    (if r.executing then ["executing".toList] else [])

/-- The roles with one more, by its name. -/
def read (word : Text) (r : Roles) : Except Text Roles :=
  if word = "receiving".toList then .ok { r with receiving := true }
  else if word = "processing".toList then .ok { r with processing := true }
  else if word = "sending".toList then .ok { r with sending := true }
  else if word = "executing".toList then .ok { r with executing := true }
  else .error ("no role is called ".toList ++ word)

/-- Whether the roles serve a stage: an executing node serves all three. -/
def can (r : Roles) : Stage → Bool
  | .receive => r.receiving || r.executing
  | .process => r.processing || r.executing
  | .send => r.sending || r.executing

instance : Capability Roles where
  none := nothing
  can := can
  executes := executing
  declaresNoStage r := Stage.all.all fun stage => !r.can stage
  stages r := Stage.all.filter r.can
  withOnline online r := { r with online := online }
  entry r name := name ++ if r.words = [] then [] else '=' :: ['+'].intercalate r.words
  fromEntry entry :=
    match splitOnce ['='] entry with
    | none => (entry, .ok nothing)
    | some (name, words) =>
      (name, (words.splitOn '+').foldlM (fun roles word => read word roles) nothing)
  serving
    | .receive => "receiving".toList
    | .process => "processing".toList
    | .send => "sending".toList

private theorem words_isAlpha (r : Roles) : ∀ word ∈ r.words, ∀ ch ∈ word, ch.isAlpha := by
  intro word hword
  have hall : word.all Char.isAlpha = true := by
    simp only [words, List.mem_append, List.mem_ite_nil_right, List.mem_singleton] at hword
    rcases hword with ((⟨-, rfl⟩ | ⟨-, rfl⟩) | ⟨-, rfl⟩) | ⟨-, rfl⟩ <;> decide
  intro ch hch
  exact List.all_eq_true.mp hall ch hch

/-- Only a declaration of no role has no word. -/
theorem can_of_words (r : Roles) (h : r.words = []) (s : Stage) :
    r.can s = false ∧ r.executing = false := by
  simp only [words, List.append_eq_nil_iff, ite_eq_right_iff, List.cons_ne_nil, imp_false,
    Bool.not_eq_true] at h
  obtain ⟨⟨⟨hr, hp⟩, hs⟩, he⟩ := h
  cases s <;> simp [can, hr, hp, hs, he]

/-- The names of a declaration's roles read back as the roles. -/
theorem read_words (r : Roles) (h : r.words ≠ []) :
    ((['+'].intercalate r.words).splitOn '+').foldlM (fun roles word => read word roles) nothing =
      .ok { r with online := false } := by
  have hplus : ∀ word ∈ r.words, '+' ∉ word := fun word hword hmem =>
    absurd (r.words_isAlpha word hword _ hmem) (by decide)
  rw [List.splitOn_intercalate '+' hplus h]
  obtain ⟨a, b, c, d, e⟩ := r
  cases a <;> cases b <;> cases c <;> cases d <;> rfl

/-- The roles are written and read as the `node` crate promises of a declaration. -/
theorem lawful : Capability.Lawful Roles where
  entry_form r name := ⟨r.words, r.words_isAlpha, rfl⟩
  fromEntry_entry r name hname := by
    have hno : '=' ∉ name := Image.not_mem hname (by decide) (by decide)
    by_cases hwords : r.words = []
    · refine ⟨nothing, ?_, ?_⟩
      · simp only [Capability.entry, Capability.fromEntry, hwords, if_true, List.append_nil,
          splitOnce_none hno]
      · have hcan : ∀ s, Capability.can nothing s = Capability.can r s := by
          intro s
          change nothing.can s = r.can s
          rw [(r.can_of_words hwords s).1]
          cases s <;> rfl
        refine ⟨hcan, (r.can_of_words hwords .receive).2.symm, ?_⟩
        exact List.filter_congr fun s _ => hcan s
    · refine ⟨{ r with online := false }, ?_, fun _ => rfl, rfl, rfl⟩
      have hcut : splitOnce ['='] (name ++ '=' :: ['+'].intercalate r.words) =
          some (name, ['+'].intercalate r.words) := by
        have hat := @splitOnce_append '=' [] name (['+'].intercalate r.words) hno
        rwa [List.append_assoc] at hat
      simp only [Capability.entry, Capability.fromEntry, if_neg hwords, hcut, read_words r hwords]
  can_of_executes r h stage := by
    have h' : r.executing = true := h
    cases stage <;> simp [Capability.can, can, h']
  mem_stages r stage := by simp [Capability.stages, Capability.can]

/-- One node declared to receive, one to process and one to send. -/
def path : Roster Roles :=
  ⟨[("in".toList, { nothing with receiving := true }),
    ("work".toList, { nothing with processing := true }),
    ("out".toList, { nothing with sending := true })]⟩

/-- The views of three nodes agree, the middle one of which may assume the internet. -/
theorem placement_agreement_path :
    ∃ parsed : Roster Roles, Roster.parse path.text = .ok parsed ∧
      let own := fun name => { path.capability name with online := name = "work".toList }
      let view := fun name => parsed.declared name (own name)
      (∀ index, ∃! name, name ∈ path.names ∧ (view name).receives name index = true) ∧
      (∀ size, ∀ a ∈ path.withStage .receive, ∀ b ∈ path.withStage .receive,
        (view a).shareOf a size ≤ (view b).shareOf b size + 1) ∧
      ∀ source ∈ path.names, ∀ stage transport contract, ∃ dest ∈ path.names,
        (∀ name ∈ path.names, (view name).target source stage transport contract = some dest) ∧
        (∀ setup node process, ∃ relay ∈
          relays setup dest node (own dest) (view dest) process, relay.stage = stage) ∧
        (Capability.executes (own source) = true → dest = source) :=
  placement_agreement lawful path
    (fun name => { path.capability name with online := name = "work".toList })
    (by decide) (by decide) (by decide) (by
      intro node hnode
      simp only [path, List.mem_cons, List.not_mem_nil, or_false] at hnode
      rcases hnode with rfl | rfl | rfl <;> exact ⟨fun _ => rfl, rfl, rfl⟩)

end Roles

end XmipEssentials
