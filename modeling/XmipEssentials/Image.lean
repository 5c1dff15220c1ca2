import XmipEssentials.Roster

/-!
# The image a process runs

A process is called after the image file it runs, and the image after the cluster and the instance
the process is: a roll, a cluster, or a node. The three are told apart by the last word of the name,
a node's by the marker before it.

The marker tells no node from an instance of another cluster: a cluster's name may end as a marker
does, and what follows it in the one name is in the other a node's. `processName_ne_iff` says which
instances are told apart, and `not_apart_roll` that a node called `roll` is somebody's roll after
all.
-/

namespace XmipEssentials

open Text

namespace Image

/-! ### The names -/

/-- What every process of the suite is called first. -/
def suite : Text := ['x', 'm', 'i', 'p', '-', 'e', 's', 's', 'e', 'n', 't', 'i', 'a', 'l', 's']

/-- The word that marks a node. -/
def node : Text := ['n', 'o', 'd', 'e']

/-- The words of a roll and of a cluster. -/
def roll : Text := ['r', 'o', 'l', 'l']

def cluster : Text := ['c', 'l', 'u', 's', 't', 'e', 'r']

/-- The process name one instance goes by. -/
def named (cluster what : Text) : Text := suite ++ '-' :: cluster ++ '-' :: what

/-- A node's word in a process name. -/
def marked (name : Text) : Text := node ++ '-' :: name

/-- What the node of that name goes by. -/
def nodeNamed (cluster name : Text) : Text := named cluster (marked name)

/-- The image file the instance called `what` runs: one of its own where a directory was named for
images, else the binary itself. -/
def of (directory : Option Text) (base cluster what suffix : Text) : Text :=
  match directory with
  | none => base
  | some directory => directory ++ '/' :: named cluster what ++ suffix

end Image

/-- A cluster's name, trimmed: letters, digits and hyphens, starting with a letter. -/
def clusterNamed (value : Text) : Except Text Text :=
  let named := trim value
  if named.head?.any Char.isAlpha && named.all fun c => c.isAlphanum || c == '-' then .ok named
  else .error ("REFUSED: a cluster's name is letters, digits and hyphens starting with a ".toList ++
    "letter: not ".toList ++ named)

/-! ### The instances -/

/-- A process of a cluster. -/
inductive Instance where
  | roll (of : Text)
  | cluster (of : Text)
  | node (of name : Text)
  deriving DecidableEq, Repr

namespace Instance

/-- The cluster an instance is of. -/
def ofCluster : Instance → Text
  | .roll c => c
  | .cluster c => c
  | .node c _ => c

/-- The last word of an instance's name. -/
def what : Instance → Text
  | .roll _ => Image.roll
  | .cluster _ => Image.cluster
  | .node _ name => Image.marked name

/-- What the instance's process is called. -/
def processName (i : Instance) : Text := Image.named i.ofCluster i.what

/-- The image file it runs. -/
def image (i : Instance) (directory base suffix : Text) : Text :=
  Image.of (some directory) base i.ofCluster i.what suffix

/-- What the doors accept of an instance: its cluster's name, and a node's own. -/
def Accepted (i : Instance) : Prop :=
  (∃ value, clusterNamed value = .ok i.ofCluster) ∧
    ∀ c name, i = .node c name → Image.refusal name = none

/-- The node `i` reads as `j`: the name of the cluster of `j` is that of `i` and the marker, or that
and more which the name of `i` starts with, and the rest of the name of `i` is the last word of
`j`. -/
def ReadsAs (i j : Instance) : Prop :=
  ∃ c name, i = .node c name ∧
    ((j.ofCluster = c ++ '-' :: Image.node ∧ name = j.what) ∨
      ∃ more, j.ofCluster = c ++ '-' :: Image.marked more ∧ name = more ++ '-' :: j.what)

/-! ### Which are told apart -/

/-- Only a node's last word has a hyphen. -/
theorem eq_node_of_mem {i : Instance} (h : '-' ∈ i.what) : ∃ c name, i = .node c name := by
  cases i with
  | roll c => exact absurd h (by decide : '-' ∉ Image.roll)
  | cluster c => exact absurd h (by decide : '-' ∉ Image.cluster)
  | node c name => exact ⟨c, name, rfl⟩

private theorem mem_marked (name : Text) : '-' ∈ Image.marked name :=
  List.mem_append_right _ List.mem_cons_self

/-- Instances of one cluster and one last word are the same. -/
theorem eq_of_what {i j : Instance} (hcluster : i.ofCluster = j.ofCluster)
    (hwhat : i.what = j.what) :
    i = j := by
  cases i with
  | roll c =>
    cases j with
    | roll d => exact congrArg Instance.roll hcluster
    | cluster d => exact absurd hwhat (by decide : Image.roll ≠ Image.cluster)
    -- a word with a hyphen in it is a node's
    | node d name =>
      obtain ⟨_, _, heq⟩ := eq_node_of_mem (hwhat ▸ mem_marked name : '-' ∈ (Instance.roll c).what)
      cases heq
  | cluster c =>
    cases j with
    | roll d => exact absurd hwhat (by decide : Image.cluster ≠ Image.roll)
    | cluster d => exact congrArg Instance.cluster hcluster
    | node d name =>
      obtain ⟨_, _, heq⟩ :=
        eq_node_of_mem (hwhat ▸ mem_marked name : '-' ∈ (Instance.cluster c).what)
      cases heq
  -- the marker in front of a node's name is the same, so the names are
  | node c name =>
    obtain ⟨d, other, rfl⟩ := eq_node_of_mem (hwhat ▸ mem_marked name : '-' ∈ j.what)
    change c = d at hcluster
    have hname := List.append_cancel_left hwhat
    rw [List.cons.injEq] at hname
    rw [hcluster, hname.2]

/-- What precedes a hyphen in a node's last word is the marker, or the marker and part of its
name. -/
theorem marked_eq_append {name x rest : Text} (h : Image.marked name = x ++ '-' :: rest) :
    (x = Image.node ∧ name = rest) ∨
      ∃ more, x = Image.marked more ∧ name = more ++ '-' :: rest := by
  unfold Image.marked at h
  rcases List.append_eq_append_iff.mp h with ⟨more, hx, hname⟩ | ⟨cut, hnode, hrest⟩
  · -- the hyphen is the marker's own, or one of the name
    cases more with
    | nil =>
      rw [List.append_nil] at hx
      rw [List.nil_append, List.cons.injEq] at hname
      exact .inl ⟨hx, hname.2⟩
    | cons c more =>
      rw [List.cons_append, List.cons.injEq] at hname
      obtain ⟨rfl, hname⟩ := hname
      exact .inr ⟨more, hx, hname⟩
  · -- The marker has no hyphen of its own.
    cases cut with
    | nil =>
      rw [List.append_nil] at hnode
      rw [List.nil_append, List.cons.injEq] at hrest
      exact .inl ⟨hnode.symm, hrest.2.symm⟩
    | cons c cut =>
      rw [List.cons_append, List.cons.injEq] at hrest
      obtain ⟨rfl, -⟩ := hrest
      have hmem : '-' ∈ Image.node := by
        rw [hnode]
        exact List.mem_append_right _ List.mem_cons_self
      exact absurd hmem (by decide)

/-- The longer of two clusters of one name is read out of a node's. -/
theorem readsAs_of_append {i j : Instance} {x : Text} (hcluster : j.ofCluster = i.ofCluster ++ x)
    (hx : x ≠ []) (h : '-' :: i.what = x ++ '-' :: j.what) : i.ReadsAs j := by
  cases x with
  | nil => exact absurd rfl hx
  | cons c x =>
    rw [List.cons_append, List.cons.injEq] at h
    obtain ⟨rfl, hwhat⟩ := h
    have hmem : '-' ∈ i.what := by
      rw [hwhat]
      exact List.mem_append_right _ List.mem_cons_self
    obtain ⟨d, name, rfl⟩ := eq_node_of_mem hmem
    refine ⟨d, name, rfl, ?_⟩
    rcases marked_eq_append hwhat with ⟨rfl, hname⟩ | ⟨more, rfl, hname⟩
    · exact .inl ⟨hcluster, hname⟩
    · exact .inr ⟨more, hcluster, hname⟩

private theorem ReadsAs.processName_eq {i j : Instance} (h : i.ReadsAs j) :
    i.processName = j.processName := by
  obtain ⟨c, name, rfl, ⟨hcluster, rfl⟩ | ⟨more, hcluster, rfl⟩⟩ := h
  · unfold processName Image.named
    rw [hcluster]
    simp [ofCluster, what, Image.marked]
  · unfold processName Image.named
    rw [hcluster]
    simp [ofCluster, what, Image.marked]

/-- **Which instances share a name**: one, and a node and what it reads as. -/
theorem processName_eq_iff {i j : Instance} :
    i.processName = j.processName ↔ i = j ∨ i.ReadsAs j ∨ j.ReadsAs i := by
  constructor
  · intro h
    unfold processName Image.named at h
    rw [List.append_assoc, List.append_assoc, List.append_right_inj, List.cons_append,
      List.cons_append, List.cons.injEq, List.append_eq_append_iff] at h
    -- One of the two clusters' names begins the other.
    rcases h.2 with ⟨x, hcluster, hwhat⟩ | ⟨x, hcluster, hwhat⟩
    · by_cases hx : x = []
      · subst hx
        rw [List.append_nil] at hcluster
        rw [List.nil_append, List.cons.injEq] at hwhat
        exact .inl (eq_of_what hcluster.symm hwhat.2)
      · exact .inr (.inl (readsAs_of_append hcluster hx hwhat))
    · by_cases hx : x = []
      · subst hx
        rw [List.append_nil] at hcluster
        rw [List.nil_append, List.cons.injEq] at hwhat
        exact .inl (eq_of_what hcluster hwhat.2.symm)
      · exact .inr (.inr (readsAs_of_append hcluster hx hwhat))
  · rintro (rfl | h | h)
    · rfl
    · exact h.processName_eq
    · exact h.processName_eq.symm

/-- An image file in a directory of images is named for its process. -/
theorem image_eq_iff {i j : Instance} {directory base suffix : Text} :
    i.image directory base suffix = j.image directory base suffix ↔
    i.processName = j.processName := by
  unfold image Image.of processName
  dsimp only
  rw [List.append_left_inj, List.append_right_inj, List.cons.injEq, and_iff_right rfl]

/-- **Processes told apart.** Of two instances, the process names and the image files differ just
where neither is a node that reads as the other. -/
theorem processName_ne_iff {i j : Instance} (hne : i ≠ j) (directory base suffix : Text) :
    (i.processName ≠ j.processName ∧ i.image directory base suffix ≠
      j.image directory base suffix) ↔
      ¬i.ReadsAs j ∧ ¬j.ReadsAs i := by
  rw [Ne, Ne, image_eq_iff, and_self, processName_eq_iff, not_or, not_or]
  exact and_iff_right hne

theorem processName_ne_two_nodes :
    (Instance.node ['C'] ['a']).processName ≠ (Instance.node ['C'] ['b']).processName ∧
      (Instance.node ['C'] ['a']).image [] [] [] ≠ (Instance.node ['C'] ['b']).image [] [] [] := by
  have hapart {name other : Text} : ¬(Instance.node ['C'] name).ReadsAs (.node ['C'] other) := by
    rintro ⟨c, n, heq, ⟨hcluster, -⟩ | ⟨more, hcluster, -⟩⟩
    all_goals
      cases heq
      exact absurd (congrArg List.length hcluster) (by simp [ofCluster])
  exact (processName_ne_iff (by decide) [] [] []).mpr ⟨hapart, hapart⟩

/-- A roll is called as a node is that is called `roll`. -/
theorem not_apart_roll :
    (Instance.roll "C1-node".toList).Accepted ∧
      (Instance.node "C1".toList "roll".toList).Accepted ∧
      Instance.roll "C1-node".toList ≠ .node "C1".toList "roll".toList ∧
      (Instance.roll "C1-node".toList).processName =
        (Instance.node "C1".toList "roll".toList).processName := by
  refine ⟨⟨⟨"C1-node".toList, by decide⟩, nofun⟩, ⟨⟨"C1".toList, by decide⟩, ?_⟩, nofun, by decide⟩
  intro c name heq
  cases heq
  decide

end Instance

end XmipEssentials
