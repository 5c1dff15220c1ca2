import XmipEssentials.Verdict

/-!
# The roster: every node of a cluster and the roles each declared

Which node serves which stage comes from the roles a node declared, never from what it is called.
What a role is belongs to another crate, so a declaration is any type with the reading of it the
rig makes (`Capability`); what the rest relies on of it is named where it is relied on.

The roster is the same list in the roll, in the cluster and in every node, so each decides alone
which pairs of the matrix a receiving node takes (`Roster.receives`) and which node a pair is handed
to next (`Roster.target`).
-/

namespace XmipEssentials

open Text

/-! ### What a node declares -/

/-- What a node declared it can do: what the rig reads of a declaration of the `node` crate. -/
class Capability (κ : Type) where
  /-- A declaration of no role. -/
  none : κ
  /-- Whether the roles serve a stage. -/
  can : κ → Stage → Bool
  /-- Whether the node is executing, whose Message takes no process hop. -/
  executes : κ → Bool
  /-- Whether the roles serve no stage at all. -/
  declaresNoStage : κ → Bool
  /-- The stages the roles serve. -/
  stages : κ → List Stage
  /-- The same roles, with or without the internet. -/
  withOnline : Bool → κ → κ
  /-- What a roster lists the node of this name by. -/
  entry : κ → Text → Text
  /-- The name and the declaration an entry says, or why it says none. -/
  fromEntry : Text → Text × Except Text κ
  /-- The name of the role that serves a stage. -/
  serving : Stage → Text

/-- Two declarations of the same roles: the rig reads the same of both, the internet aside. -/
structure SameRoles {κ : Type} [Capability κ] (c d : κ) : Prop where
  can : ∀ s, Capability.can c s = Capability.can d s
  executes : Capability.executes c = Capability.executes d
  stages : Capability.stages c = Capability.stages d

/-! ### What a node may be called -/

/-- Why a node cannot be called `name`, if it cannot: its name becomes a file name and the last word
of its process name. -/
def Image.refusal (name : Text) : Option Text :=
  let shaped := (name.head?.any Char.isAlpha) && name.all fun c => c.isAlphanum || c == '-'
  if shaped then none
  else some ("REFUSED: a node's name is letters, digits and hyphens starting with a ".toList ++
    "letter, because it is the last word of xmip-essentials-<cluster>-node-<node> ".toList ++
    "and a file name: not ".toList ++ name)

theorem Image.refusal_eq_none {name : Text} :
    Image.refusal name = none ↔
      name.head?.any Char.isAlpha = true ∧ ∀ c ∈ name, c.isAlphanum = true ∨ c = '-' := by
  unfold Image.refusal
  dsimp only
  split_ifs with h
  · simpa using h
  · simpa using h

/-- A name no door refuses is not empty. -/
theorem Image.ne_nil {name : Text} (h : Image.refusal name = none) : name ≠ [] := by
  rintro rfl
  exact Bool.false_ne_true (Image.refusal_eq_none.mp h).1

/-- A name no door refuses holds letters, digits and hyphens only. -/
theorem Image.not_mem {name : Text} (h : Image.refusal name = none) {c : Char}
    (hc : c.isAlphanum = false) (hhyphen : c ≠ '-') : c ∉ name := by
  intro hmem
  rcases (Image.refusal_eq_none.mp h).2 c hmem with hin | hin
  · rw [hc] at hin
    exact Bool.false_ne_true hin
  · exact hhyphen hin

/-! ### The roster -/

variable {κ : Type} [Capability κ]

/-- Every node of a cluster, in the order they were named, with what each declared. -/
structure Roster (κ : Type) where
  nodes : List (Text × κ)

/-- FNV-1a over a text, then mixed. -/
def fnv1a (text : Text) : UInt64 :=
  let hash := (utf8 text).foldl
    (fun hash byte => (hash ^^^ byte.toUInt64) * 0x100000001b3) 0xcbf29ce484222325
  let mixed := (hash ^^^ (hash >>> 33)) * 0xff51afd7ed558ccd
  mixed ^^^ (mixed >>> 33)

namespace Roster

/-- The nodes a list of `--nodes` entries says, an empty one passed over. -/
def parseEntries : List Text → Except Text (List (Text × κ))
  | [] => .ok []
  | entry :: rest =>
    -- a comma at the end, or two in a row
    if entry = [] then parseEntries rest
    else
      match Capability.fromEntry entry with
      -- one entry that does not read refuses the whole list
      | (_, .error why) => .error why
      | (name, .ok capability) => (parseEntries rest).map ((name, capability) :: ·)

/-- The roster a `--nodes` value says: `name[=role[+role]]`, comma separated. -/
def parse (raw : Text) : Except Text (Roster κ) :=
  (parseEntries ((raw.splitOn ',').map trim)).map Roster.mk

/-- The roster as `--nodes` takes it back. -/
def text (r : Roster κ) : Text :=
  [','].intercalate (r.nodes.map fun node => Capability.entry node.2 node.1)

/-- Every node's name, in the order they were named. -/
def names (r : Roster κ) : List Text := r.nodes.map Prod.fst

/-- Whether no node was named at all. -/
def isEmpty (r : Roster κ) : Bool := r.nodes.isEmpty

/-- What the node called `name` declared; nothing when it is no node here. -/
def capability (r : Roster κ) (name : Text) : κ :=
  match r.nodes.find? fun node => eqIgnoreAsciiCase node.1 name with
  | some node => node.2
  -- a node unknown here can do nothing
  | none => Capability.none

/-- The nodes with `name`'s declaration replaced by `capability`, or `name` named last where it was
none of them. -/
def declareIn (name : Text) (capability : κ) : List (Text × κ) → List (Text × κ)
  | [] => [(name, capability)]
  | node :: rest =>
    if eqIgnoreAsciiCase node.1 name then (node.1, capability) :: rest
    else node :: declareIn name capability rest

/-- The same roster with `name`'s declaration replaced by `capability`: how a node makes its own
`--role` the last word on itself. -/
def declared (r : Roster κ) (name : Text) (capability : κ) : Roster κ :=
  ⟨declareIn name capability r.nodes⟩

/-- The nodes that declared they can serve `stage`, in the order they were named. -/
def withStage (r : Roster κ) (stage : Stage) : List Text :=
  (r.nodes.filter fun node => Capability.can node.2 stage).map Prod.fst

/-- Whether any node declared a stage of the message path. -/
def servesAnyStage (r : Roster κ) : Bool :=
  r.nodes.any fun node => !Capability.declaresNoStage node.2

/-- Whether these nodes cover the whole message path. -/
def coversThePath (r : Roster κ) : Bool := Stage.all.all fun stage => !(r.withStage stage).isEmpty

/-- Why `RoundTrip` cannot run across these nodes, if it cannot: the path needs receiving,
processing and sending declared somewhere. -/
def refusal (r : Roster κ) : Option Text :=
  if !r.servesAnyStage then none
  else
    let missing := (Stage.all.filter fun stage => (r.withStage stage).isEmpty).map
      (Capability.serving κ)
    if missing.isEmpty then none
    else some ("REFUSED. RoundTrip across nodes needs the receiving, processing and ".toList ++
      "sending roles declared, or executing; no node declares ".toList ++
      " or ".toList.intercalate missing ++ ['.'])

/-- Whether the receiving node `name` takes the pair at `index` of the matrix: the index modulo the
count that receive. -/
def receives (r : Roster κ) (name : Text) (index : Nat) : Bool :=
  let receivers := r.withStage .receive
  match receivers.idxOf? name with
  | some place => index % receivers.length == place
  | none => false

/-- The node `from` hands a pair on to for `stage`: `from` itself when it is executing, otherwise a
stable hash of the stage and the pair over the nodes serving it. -/
def target (r : Roster κ) (source : Text) (stage : Stage) (transport : Text) (contract : Contract) :
    Option Text :=
  if Capability.executes (r.capability source) then some source
  else
    let nodes := r.withStage stage
    if nodes.isEmpty then none
    else
      let hash := fnv1a (stage.name ++ '/' :: transport ++ '/' :: contract.name)
      nodes[hash.toNat % nodes.length]?

/-! ### What the operations say -/

theorem mem_withStage {r : Roster κ} {stage : Stage} {name : Text} :
    name ∈ r.withStage stage ↔ ∃ c, (name, c) ∈ r.nodes ∧ Capability.can c stage = true := by
  simp [withStage]

theorem withStage_subset_names {r : Roster κ} {stage : Stage} {name : Text}
    (h : name ∈ r.withStage stage) : name ∈ r.names := by
  obtain ⟨c, hc, -⟩ := mem_withStage.mp h
  exact List.mem_map.mpr ⟨_, hc, rfl⟩

theorem coversThePath_iff {r : Roster κ} :
    r.coversThePath = true ↔ ∀ stage, r.withStage stage ≠ [] := by
  simp [coversThePath, List.isEmpty_eq_false_iff]

/-- A roster that covers the path is not refused. -/
theorem refusal_of_coversThePath {r : Roster κ} (h : r.coversThePath = true) :
    r.refusal = none := by
  have hmissing : (Stage.all.filter fun stage => (r.withStage stage).isEmpty) = [] := by
    rw [List.filter_eq_nil_iff]
    intro stage _
    simpa using coversThePath_iff.mp h stage
  simp [refusal, hmissing]

/-- The executing node keeps its pair. -/
theorem target_of_executes {r : Roster κ} {source : Text} {stage : Stage} {transport : Text}
    {contract : Contract} (h : Capability.executes (r.capability source) = true) :
    r.target source stage transport contract = some source := by
  rw [target, if_pos h]

/-- Any other hands it to one of the nodes serving the stage. -/
theorem target_mem {r : Roster κ} {source dest : Text} {stage : Stage} {transport : Text}
    {contract : Contract} (hno : Capability.executes (r.capability source) = false)
    (h : r.target source stage transport contract = some dest) :
    dest ∈ r.withStage stage := by
  rw [target, hno, if_neg Bool.false_ne_true] at h
  dsimp only at h
  split at h
  · cases h
  · exact List.mem_of_getElem? h

/-- Where some node serves the stage, there is a node to hand to. -/
theorem target_isSome {r : Roster κ} {source : Text} {stage : Stage} {transport : Text}
    {contract : Contract} (h : r.withStage stage ≠ []) :
    (r.target source stage transport contract).isSome = true := by
  rw [target]
  split
  · rfl
  · rw [if_neg (by simpa using h)]
    have hlen := List.length_pos_of_ne_nil h
    rw [List.getElem?_eq_getElem (Nat.mod_lt _ hlen)]
    rfl

end Roster

end XmipEssentials
