import XmipEssentials.Lib.Flags
import XmipEssentials.Cluster.Orders
import XmipEssentials.Roles
import XmipEssentials.Image

/-!
# The orders handed down

A roll starts a cluster with the orders as a command line, and the cluster, once it has read them
and found nothing to refuse, starts each of its nodes with another. What the roll ordered is what
each node reads.

* `ClusterCommand.opens_eq_ok_iff` — the cluster's door: it opens just for pairs of a known flag and
  a value that flag can read, every flag needed among them, under the name its scope root says, with
  orders nothing refuses; and each of the orders is what the last value given for its flag means.
* `handed_down` — orders that nothing refuses reach every node they name: the node reads its own
  name, the level, the scenarios, a roster alike the one ordered, and the roles and the internet
  that were declared for it.

What a declaration's roles are called on a command line is the `node` crate's: `Worded` is what the
two ends use of it.
-/

namespace XmipEssentials

open Text Flags

/-! ### The words -/

/-- A list of names as it is written, one comma between two. -/
def commas (names : List Text) : Text := [','].intercalate names

/-- A comma-separated list of node names, trimmed, empties dropped. -/
def Switch.names (raw : Text) : List Text := ((raw.splitOn ',').map trim).filter (· ≠ [])

/-- The switch a word means. -/
def Switch.parse (raw : Text) : Option Bool :=
  let word := (trim raw).map Char.toLower
  if word ∈ ["true".toList, "yes".toList, "on".toList, "1".toList] then some true
  else if word ∈ ["false".toList, "no".toList, "off".toList, "0".toList] then some false
  else none

/-- A switch as it is written. -/
def Switch.text (on : Bool) : Text := if on then "true".toList else "false".toList

/-- Every scenario, in the order the board lists them. -/
def SCENARIOS : List Text :=
  ["round-trip".toList, "low-latency".toList, "heavy-load".toList, "retention".toList,
  "filing".toList, "exclusive-claim".toList, "daily-backlog".toList]

/-- The scenarios named in a comma-separated list, trimmed and lowered. -/
def chosen (raw : Option Text) : Except Text (List Text) :=
  let named := (((raw.getD []).splitOn ',').map fun name => (trim name).map Char.toLower).filter
    (· ≠ [])
  let (known, unknown) := named.partition (· ∈ SCENARIOS)
  if unknown.isEmpty then .ok known
  else .error ("REFUSED: no scenario is named ".toList ++ ", ".toList.intercalate unknown ++
    "; the scenarios are ".toList ++ ", ".toList.intercalate SCENARIOS)

/-- A whole number of 64 bits, or why the value is none. -/
def wholeNumber (value why : Text) : Except Text Nat :=
  match parseNat value with
  -- what is past 64 bits is no number either
  | some n => if n < 2 ^ 64 then .ok n else .error why
  | none => .error why

/-- A declaration as it is told to a node: its roles' names, read back, and whether it may assume
the internet. -/
class Worded (κ : Type) extends Capability κ where
  words : κ → Text
  parse : Text → Except Text κ
  isOnline : κ → Bool

/-- What the `node` crate keeps of it: the roles read back, the internet is said beside them, and a
declaration declares no stage just where it can serve none. -/
structure Worded.Lawful (κ : Type) [Worded κ] : Prop extends Capability.Lawful κ where
  parse_words : ∀ c : κ, ∃ d : κ, Worded.parse (Worded.words c) = .ok d ∧ SameRoles d c
  sameRoles_withOnline : ∀ (online : Bool) (c : κ), SameRoles (Capability.withOnline online c) c
  isOnline_withOnline : ∀ (online : Bool) (c : κ), Worded.isOnline
    (Capability.withOnline online c) = online
  declaresNoStage_iff : ∀ c : κ, Capability.declaresNoStage c = true ↔
    ∀ stage, Capability.can c stage = false

/-- The orders whole: also how hard every node runs, for how many rounds, and in which cluster. -/
structure Orders.Whole (κ : Type) extends Orders κ where
  stress : Stress
  rounds : Nat
  cluster : Text

variable {κ : Type}

/-- A value that has to be given. -/
def required {α : Type} (given : Option α) (why : Text) : Except Text α :=
  match given with
  | some value => .ok value
  | none => .error why

private theorem required_bind {α β : Type} {given : Option α} {why : Text}
    {next : α → Except Text β} {b : β} :
    (required given why >>= next) = .ok b ↔ ∃ a, given = some a ∧ next a = .ok b := by
  cases given with
  | none => simp [required, bind, Except.bind]
  | some a => simp [required, bind, Except.bind]

/-! ### The cluster's command line -/

/-- The flags of the cluster. -/
inductive ClusterFlag where
  | name
  | shared
  | nodes
  | online
  | stress
  | scenarios
  | rounds
  | snapshot
  | intervalMs
  deriving DecidableEq, Repr

namespace ClusterFlag

def all : List ClusterFlag :=
  [name, shared, nodes, online, stress, scenarios, rounds, snapshot, intervalMs]

def word : ClusterFlag → Text
  | name => "--name".toList
  | shared => "--shared".toList
  | nodes => "--nodes".toList
  | online => "--online".toList
  | stress => "--stress".toList
  | scenarios => "--scenarios".toList
  | rounds => "--rounds".toList
  | snapshot => "--snapshot".toList
  | intervalMs => "--interval-ms".toList

/-- What each of them says, once given. -/
abbrev Value (κ : Type) : ClusterFlag → Type
  | name | shared | snapshot => Option Text
  | nodes => Option (Roster κ)
  | online => Option (List Text)
  | stress => Option Stress
  | scenarios => List Text
  | rounds => Option Nat
  | intervalMs => Nat

/-- What each of them says until it is given. -/
def unsaid : ∀ f, Value κ f
  | name | shared | snapshot | nodes | online | stress | rounds => none
  | scenarios => []
  | intervalMs => 250

end ClusterFlag

/-- What the cluster's command line said. -/
structure ClusterArguments (κ : Type) where
  name : Text
  shared : Text
  nodes : Roster κ
  online : Option (List Text)
  stress : Stress
  scenarios : List Text
  rounds : Nat
  snapshot : Text
  intervalMs : Nat

namespace ClusterCommand

/-- A stress level by name, or a refusal naming the four there are. -/
def level (value : Text) : Except Text Stress :=
  required (Stress.parse value) ("REFUSED: no stress level is called ".toList ++ value ++
    "; the levels are ".toList ++ ", ".toList.intercalate Stress.NAMES)

def number (flag value : Text) : Except Text Nat :=
  wholeNumber value ("REFUSED: ".toList ++ flag ++ " wants a whole number, not ".toList ++ value)

/-- What a value means under a flag. -/
def reads [Capability κ] (f : ClusterFlag) (value : Text) : Except Text (ClusterFlag.Value κ f) :=
  match f with
  | .name => (clusterNamed value).map some
  | .shared => .ok (some value)
  | .nodes => (Roster.parse value).map some
  | .online => .ok (some (Switch.names value))
  | .stress => (level value).map some
  | .scenarios => chosen (some value)
  | .rounds => (number ClusterFlag.rounds.word value).map some
  | .snapshot => .ok (some value)
  | .intervalMs => number ClusterFlag.intervalMs.word value

private theorem find?_word (w : Text) (f : ClusterFlag) :
    (ClusterFlag.all.find? fun f => f.word = w) = some f ↔ w = f.word := by
  constructor
  · intro h
    have hword := List.find?_some h
    simp only [decide_eq_true_eq] at hword
    exact hword.symm
  · rintro rfl
    cases f <;> decide

/-- The cluster's command line. -/
def line (κ : Type) [Capability κ] : Command Text ClusterFlag Text (ClusterFlag.Value κ) where
  word := ClusterFlag.word
  flag w := ClusterFlag.all.find? fun f => f.word = w
  flag_eq_some := find?_word
  needs flag := flag ++ " needs a value".toList
  unknown other := "REFUSED: no flag is called ".toList ++ other ++
    "; the flags are --name, --shared, ".toList ++
      "--nodes, --online, --stress, --scenarios, --rounds, --snapshot and --interval-ms".toList
  reads := reads

/-- Every flag needed given, and what each says. -/
def arguments (given : ∀ f, ClusterFlag.Value κ f) : Except Text (ClusterArguments κ) := do
  let name ← required (given .name)
    "REFUSED: --name is required; a cluster is named, never invented".toList
  let shared ← required (given .shared)
    "REFUSED: --shared is required; it is the store the nodes share".toList
  let nodes ← required (given .nodes)
    ("REFUSED: --nodes is required; --nodes <node>=receiving,<node>=processing,".toList ++
      "<node>=sending names them and what each declares".toList)
  let stress ← required (given .stress) ("REFUSED: --stress is required; it is one of ".toList ++
    ", ".toList.intercalate Stress.NAMES)
  let rounds ← required (given .rounds)
    "REFUSED: --rounds is required; 0 rolls until stopped".toList
  let snapshot ← required (given .snapshot)
    "REFUSED: --snapshot is required; it is where the cluster publishes".toList
  -- without the flag the internet is told of no node, and the interval is its own
  .ok ⟨name, shared, nodes, given .online, stress, given .scenarios, rounds, snapshot,
    given .intervalMs⟩

private theorem arguments_eq_ok_iff {given : ∀ f, ClusterFlag.Value κ f} {a : ClusterArguments κ} :
    arguments given = .ok a ↔
      (given .name = some a.name ∧ given .shared = some a.shared ∧ given .nodes = some a.nodes ∧
        given .stress = some a.stress ∧ given .rounds = some a.rounds ∧
        given .snapshot = some a.snapshot) ∧
      given .online = a.online ∧ given .scenarios = a.scenarios ∧
        given .intervalMs = a.intervalMs := by
  rw [arguments]
  simp only [required_bind]
  constructor
  · rintro ⟨name, hname, shared, hshared, nodes, hnodes, stress, hstress, rounds, hrounds, snapshot,
      hsnapshot, h⟩
    obtain rfl := Except.ok.inj h
    exact ⟨⟨hname, hshared, hnodes, hstress, hrounds, hsnapshot⟩, rfl, rfl, rfl⟩
  · rintro ⟨⟨hname, hshared, hnodes, hstress, hrounds, hsnapshot⟩, honline, hscenarios, hinterval⟩
    refine ⟨_, hname, _, hshared, _, hnodes, _, hstress, _, hrounds, _, hsnapshot, ?_⟩
    rw [honline, hscenarios, hinterval]

variable [Capability κ]

/-- `--flag value` pairs, every required one present and well-formed. -/
def parse (args : List Text) : Except Text (ClusterArguments κ) := do
  let given ← (line κ).read args ClusterFlag.unsaid
  arguments given

/-- The cluster a process is told it is: what its environment says, trimmed. -/
def clusterName (environment : Option Text) : Option Text := (environment.map trim).filter (· ≠ [])

/-- What a cluster's arguments order of its nodes. -/
def orders (a : ClusterArguments κ) : Orders.Whole κ where
  roster := a.nodes
  online := a.online
  scenarios := a.scenarios
  stress := a.stress
  rounds := 0
  cluster := a.name

/-- The cluster's door: the orders its nodes start on, or why none starts. -/
def opens (environment : Option Text) (args : List Text) : Except Text (Orders.Whole κ) := do
  let a ← parse args
  if clusterName environment ≠ some a.name then
    .error ("REFUSED: the scope root is XMIP_ESSENTIALS_CLUSTER and it says ".toList ++
      (clusterName environment).getD "nothing".toList ++ ", not ".toList ++ a.name ++
      "; a cluster is started by a roll, which sets it.".toList)
  else
    match (orders a).refusal with
    | some refusal => .error refusal
    | none => .ok (orders a)

private theorem parse_eq_ok_iff {args : List Text} {a : ClusterArguments κ} :
    parse args = .ok a ↔ ∃ given, (line κ).read args ClusterFlag.unsaid = .ok given ∧
    arguments given = .ok a := by
  rw [parse]
  cases (line κ).read args ClusterFlag.unsaid with
  | error why => simp [bind, Except.bind]
  | ok given => simp [bind, Except.bind]

private theorem opens_eq_ok {environment : Option Text} {args : List Text} {o : Orders.Whole κ} :
    opens environment args = .ok o ↔ ∃ a, parse args = .ok a ∧
    clusterName environment = some a.name ∧
      (orders a).refusal = none ∧ o = orders a := by
  -- The words are parsed, the name they give is the environment's, and the orders are not refused.
  rw [opens]
  cases hparse : (parse args : Except Text (ClusterArguments κ)) with
  | error why => simp [bind, Except.bind]
  | ok a =>
    show (if clusterName environment ≠ some a.name then _ else _) = _ ↔ _
    by_cases hname : clusterName environment = some a.name
    · rw [if_neg (not_not.mpr hname)]
      cases hrefusal : (orders a).refusal with
      | some refusal =>
        apply iff_of_false nofun
        rintro ⟨_, ⟨⟩, -, hnone, -⟩
        exact nomatch hrefusal.symm.trans hnone
      | none =>
        constructor
        · rintro ⟨⟩
          exact ⟨a, rfl, hname, hrefusal, rfl⟩
        · rintro ⟨_, ⟨⟩, -, -, rfl⟩
          rfl
    · rw [if_pos hname]
      apply iff_of_false nofun
      rintro ⟨_, ⟨⟩, hname', -⟩
      exact hname hname'

/-- **The cluster's door.** It opens just for pairs of a known flag and a value that flag can read,
every flag needed among them, where the scope root says the name given and nothing refuses the
orders; and then each of the orders is what the last value given for its flag means, or what no
value means, and the nodes run until they are stopped. -/
theorem opens_eq_ok_iff {environment : Option Text} {args : List Text} {o : Orders.Whole κ} :
    opens environment args = .ok o ↔ ∃ pairs, ∃ given : ∀ f, ClusterFlag.Value κ f,
      args = (line κ).written pairs ∧
      (∀ pair ∈ pairs, ∃ said, (line κ).reads pair.1 pair.2 = .ok said) ∧
      (∀ f, (line κ).Holds pairs (ClusterFlag.unsaid f) (given f)) ∧
      ((∃ shared, given .shared = some shared) ∧ (∃ rounds, given .rounds = some rounds) ∧
        ∃ snapshot, given .snapshot = some snapshot) ∧
      given .name = some o.cluster ∧ given .nodes = some o.roster ∧ given .stress = some o.stress ∧
      given .online = o.online ∧ given .scenarios = o.scenarios ∧ o.rounds = 0 ∧
      clusterName environment = some o.cluster ∧ o.refusal = none := by
  -- the two doors one after the other: the command line, then the orders it reads to
  rw [opens_eq_ok]
  simp only [parse_eq_ok_iff, Command.read_eq_ok_iff, arguments_eq_ok_iff]
  constructor
  · rintro ⟨a, ⟨given, ⟨pairs, hargs, hall, hholds⟩,
      ⟨hname, hshared, hnodes, hstress, hrounds, hsnapshot⟩, honline, hscenarios, -⟩, hroot,
      hrefusal, rfl⟩
    exact ⟨pairs, given, hargs, hall, hholds, ⟨⟨_, hshared⟩, ⟨_, hrounds⟩, _, hsnapshot⟩, hname,
      hnodes, hstress, honline, hscenarios, rfl, hroot, hrefusal⟩
  · rintro ⟨pairs, given, hargs, hall, hholds,
      ⟨⟨shared, hshared⟩, ⟨rounds, hrounds⟩, snapshot, hsnapshot⟩, hname, hnodes, hstress, honline,
      hscenarios, hzero, hroot, hrefusal⟩
    obtain ⟨⟨roster, online, scenarios⟩, stress, runs, cluster⟩ := o
    obtain rfl := hzero
    refine ⟨⟨cluster, shared, roster, online, stress, scenarios, rounds, snapshot,
      given .intervalMs⟩, ⟨given,
      ⟨pairs, hargs, hall, hholds⟩, ⟨hname, hshared, hnodes, hstress, hrounds, hsnapshot⟩, honline,
      hscenarios, rfl⟩, hroot, hrefusal, rfl⟩

end ClusterCommand

/-! ### A node's command line -/

/-- The flags of a node. -/
inductive NodeFlag where
  | name
  | shared
  | stress
  | rounds
  | snapshot
  | intervalMs
  | beatMs
  | online
  | role
  | nodes
  | scenarios
  deriving DecidableEq, Repr

namespace NodeFlag

def all : List NodeFlag :=
  [name, shared, stress, rounds, snapshot, intervalMs, beatMs, online, role, nodes, scenarios]

def word : NodeFlag → Text
  | name => "--name".toList
  | shared => "--shared".toList
  | stress => "--stress".toList
  | rounds => "--rounds".toList
  | snapshot => "--snapshot".toList
  | intervalMs => "--interval-ms".toList
  | beatMs => "--beat-ms".toList
  | online => "--online".toList
  | role => "--role".toList
  | nodes => "--nodes".toList
  | scenarios => "--scenarios".toList

/-- What each of them says, once given. -/
abbrev Value (κ : Type) : NodeFlag → Type
  | name | shared | snapshot => Option Text
  | stress => Option Stress
  | rounds => Option Nat
  | intervalMs | beatMs => Nat
  | online => Bool
  | role => κ
  | nodes => Roster κ
  | scenarios => List Text

/-- What each of them says until it is given. -/
def unsaid [Capability κ] : ∀ f, Value κ f
  | name | shared | snapshot | stress | rounds => none
  | intervalMs => 250
  | beatMs => 100
  | online => false
  | role => Capability.none
  | nodes => ⟨[]⟩
  | scenarios => []

end NodeFlag

/-- What a node's command line said. -/
structure NodeArguments (κ : Type) where
  name : Text
  shared : Text
  stress : Stress
  rounds : Nat
  snapshot : Text
  intervalMs : Nat
  beatMs : Nat
  capability : κ
  roster : Roster κ
  scenarios : List Text

namespace NodeCommand

def number (flag value : Text) : Except Text Nat :=
  wholeNumber value (flag ++ " wants a number, not ".toList ++ value)

variable [Worded κ]

/-- What a value means under a flag. -/
def reads (f : NodeFlag) (value : Text) : Except Text (NodeFlag.Value κ f) :=
  match f with
  | .name => .ok (some value)
  | .shared => .ok (some value)
  | .stress => (required (Stress.parse value) ("unknown stress ".toList ++ value)).map some
  | .rounds => (number NodeFlag.rounds.word value).map some
  | .snapshot => .ok (some value)
  | .intervalMs => number NodeFlag.intervalMs.word value
  | .beatMs => (number NodeFlag.beatMs.word value).map (max 1)
  | .online => required (Switch.parse value) ("--online wants true or false, not ".toList ++ value)
  | .role => Worded.parse value
  | .nodes => Roster.parse value
  | .scenarios => chosen (some value)

private theorem find?_word (w : Text) (f : NodeFlag) :
    (NodeFlag.all.find? fun f => f.word = w) = some f ↔ w = f.word := by
  constructor
  · intro h
    have hword := List.find?_some h
    simp only [decide_eq_true_eq] at hword
    exact hword.symm
  · rintro rfl
    cases f <;> decide

/-- A node's command line. -/
def line (κ : Type) [Worded κ] : Command Text NodeFlag Text (NodeFlag.Value κ) where
  word := NodeFlag.word
  flag w := NodeFlag.all.find? fun f => f.word = w
  flag_eq_some := find?_word
  needs flag := flag ++ " needs a value".toList
  unknown other := "unknown flag ".toList ++ other
  reads := reads

/-- Every flag needed given, and what each says. -/
def arguments (given : ∀ f, NodeFlag.Value κ f) : Except Text (NodeArguments κ) := do
  let name ← required (given .name) "--name is required".toList
  let shared ← required (given .shared) "--shared is required".toList
  let stress ← required (given .stress) "--stress is required".toList
  let rounds ← required (given .rounds) "--rounds is required".toList
  let snapshot ← required (given .snapshot) "--snapshot is required".toList
  .ok ⟨name, shared, stress, rounds, snapshot, given .intervalMs, given .beatMs,
    Capability.withOnline (given .online) (given .role), given .nodes, given .scenarios⟩

/-- `--flag value` pairs, every required one present. -/
def parse (args : List Text) : Except Text (NodeArguments κ) := do
  let given ← (line κ).read args NodeFlag.unsaid
  arguments given

end NodeCommand

/-! ### Handed down -/

/-- What the roll starts a cluster's process with: the cluster rolls until the roll stops it. -/
def clusterPairs [Capability κ] (cluster : Text) (o : Orders.Whole κ) (shared path : Text) :
    List (ClusterFlag × Text) :=
  [(.name, cluster), (.stress, o.stress.name), (.nodes, o.roster.text), (.rounds, "0".toList)] ++
    (match o.online with
    | none => []
    | some online => [(.online, commas online)]) ++
    (if o.scenarios = [] then [] else [(.scenarios, commas o.scenarios)]) ++
      [(.shared, shared), (.snapshot, path)]

/-- How often a node ticks. -/
def nodeIntervalMs : Stress → Nat
  | .calm | .realistic => 250
  | .harsh => 1000
  | .brutal => 2000

/-- The declaration as the node's flags: its roles, and whether it may assume the internet. -/
def flags [Worded κ] (capability : κ) : List (NodeFlag × Text) :=
  [(.role, Worded.words capability), (.online, Switch.text (Worded.isOnline capability))]

/-- What a cluster starts the node called `name` with, where a node beats every `beatMs`
milliseconds. -/
def nodePairs [Worded κ] (environment : Text → Bool) (beatMs : Nat) (o : Orders.Whole κ)
    (name shared path : Text) :
    List (NodeFlag × Text) :=
  [(.name, name), (.stress, o.stress.name), (.rounds, decimal o.rounds),
    (.intervalMs, decimal (nodeIntervalMs o.stress)),
    (.beatMs, decimal beatMs), (.nodes, o.roster.text)] ++
    (if o.scenarios = [] then [] else [(.scenarios, commas o.scenarios)]) ++
      flags (o.capability environment name) ++
    [(.shared, shared), (.snapshot, path)]

/-! ### What is written reads back -/

/-- Names no comma stands in and nothing is trimmed or lowered off are read back from their list. -/
theorem filter_splitOn_commas {names : List Text} (hnames : ∀ name ∈ names, name ≠ [] ∧ ',' ∉ name)
    {read : Text → Text} (hread : ∀ name ∈ names, read name = name) (hnil : read [] = []) :
    (((commas names).splitOn ',').map read).filter (· ≠ []) = names := by
  by_cases hempty : names = []
  · subst hempty
    show ([read []].filter (· ≠ [])) = []
    rw [hnil]
    rfl
  · rw [commas, List.splitOn_intercalate ',' (fun name hname => (hnames name hname).2) hempty,
      List.map_congr_left hread, List.map_id']
    exact List.filter_eq_self.mpr fun name hname => decide_eq_true (hnames name hname).1

private theorem chosen_commas {scenarios : List Text}
    (h : ∀ scenario ∈ scenarios, scenario ∈ SCENARIOS) :
    chosen (some (commas scenarios)) = .ok scenarios := by
  have hplain : ∀ scenario ∈ SCENARIOS, (scenario ≠ [] ∧ ',' ∉ scenario) ∧
    (trim scenario).map Char.toLower = scenario := by
    decide
  have hread := filter_splitOn_commas (fun scenario hmem => (hplain scenario (h scenario hmem)).1)
    (fun scenario hmem => (hplain scenario (h scenario hmem)).2) rfl
  have hknown : scenarios.filter (fun scenario => decide (scenario ∈ SCENARIOS)) = scenarios :=
    List.filter_eq_self.mpr fun scenario hmem => decide_eq_true (h scenario hmem)
  have hunknown : scenarios.filter (not ∘ fun scenario => decide (scenario ∈ SCENARIOS)) = [] := by
    rw [List.filter_eq_nil_iff]
    intro scenario hmem
    simp [h scenario hmem]
  rw [chosen, Option.getD_some, hread, List.partition_eq_filter_filter]
  dsimp only
  rw [hunknown, hknown]
  rfl

private theorem wholeNumber_decimal {n : Nat} (h : n < 2 ^ 64) (why : Text) :
    wholeNumber (decimal n) why = .ok n := by
  rw [wholeNumber, parseNat_decimal]
  exact if_pos h

private theorem Switch.parse_text (on : Bool) :
    Switch.parse (Switch.text on) = some on := by cases on <;> decide

/-- A name that is a node's, its case aside, stands plain in a list. -/
theorem plain_of_eqIgnoreAsciiCase {name one : Text} (hname : Image.refusal name = none)
    (h : eqIgnoreAsciiCase name one = true) : (one ≠ [] ∧ ',' ∉ one) ∧ trim one = one := by
  rw [eqIgnoreAsciiCase_iff] at h
  -- A letter and its other case are letters both, and a hyphen has no other case.
  have hchars : ∀ c ∈ one, c.isAlphanum = true ∨ c = '-' := by
    intro c hc
    have hlower : c.toLower ∈ name.map Char.toLower := h ▸ List.mem_map_of_mem hc
    obtain ⟨d, hd, hcase⟩ := List.mem_map.mp hlower
    rw [← isAlphanum_toLower c, ← hcase, isAlphanum_toLower]
    apply ((Image.refusal_eq_none.mp hname).2 d hd).imp_right
    intro hhyphen
    subst hhyphen
    have hc : c.isAlphanum = false := by
      rw [← isAlphanum_toLower, ← hcase]
      rfl
    rw [← toLower_eq_self hc, ← hcase]
    rfl
  refine ⟨⟨?_, fun hcomma => absurd (hchars _ hcomma) (by decide)⟩, trim_eq_self fun c hc => ?_⟩
  · rintro rfl
    exact Image.ne_nil hname (List.map_eq_nil_iff.mp h)
  · rcases hchars c hc with hc | rfl
    · exact isWhitespace_of_isAlphanum hc
    · decide

/-! ### Alike orders -/

private theorem Roster.Alike.trans [Capability κ] {a b c : Roster κ} (h : a.Alike b)
    (h' : b.Alike c) :
    a.Alike c := by
  obtain ⟨xs⟩ := a
  obtain ⟨ys⟩ := b
  obtain ⟨zs⟩ := c
  change List.Forall₂ _ xs ys at h
  change List.Forall₂ _ ys zs at h'
  change List.Forall₂ _ xs zs
  induction h generalizing zs with
  | nil => exact h'
  | cons hxy _ ih =>
    cases h' with
    | cons hyz hrest => exact .cons ⟨hxy.1.trans hyz.1, hxy.2.trans hyz.2⟩ (ih _ hrest)

section Alike

variable [Worded κ] (law : Worded.Lawful κ)

include law

private theorem Roster.Alike.refusal {a b : Roster κ} (h : a.Alike b) : a.refusal = b.refusal := by
  have hserves : a.servesAnyStage = b.servesAnyStage := by
    obtain ⟨xs⟩ := a
    obtain ⟨ys⟩ := b
    change List.Forall₂ _ xs ys at h
    induction h with
    | nil => rfl
    | @cons x y xs ys hxy _ ih =>
      have hstage : Capability.declaresNoStage x.2 = Capability.declaresNoStage y.2 := by
        rw [Bool.eq_iff_iff, law.declaresNoStage_iff, law.declaresNoStage_iff]
        simp only [hxy.2.can]
      simp only [Roster.servesAnyStage, List.any_cons, hstage] at ih ⊢
      rw [ih]
  rw [Roster.refusal, Roster.refusal, hserves]
  simp only [h.withStage]

/-- Orders over alike rosters are refused alike. -/
theorem Orders.refusal_congr {a b : Orders κ} (hroster : a.roster.Alike b.roster)
    (honline : a.online = b.online) (hscenarios : a.scenarios = b.scenarios) :
    a.refusal = b.refusal := by
  have hnames : a.names = b.names := hroster.names
  have hempty : a.roster.isEmpty = b.roster.isEmpty := by
    have hnamed (r : Roster κ) : r.isEmpty = r.names.isEmpty := by
      simp [Roster.isEmpty, Roster.names]
    rw [hnamed, hnamed]
    exact congrArg List.isEmpty hnames
  rw [Orders.refusal, Orders.refusal, hempty, hnames, honline, hscenarios, hroster.refusal law]

end Alike

/-! ### Down to the nodes -/

section Down

variable [Worded κ] (law : Worded.Lawful κ) {o : Orders.Whole κ}

/-- What orders say of the nodes that may assume the internet stands plain in their list. -/
theorem Orders.plain_online {o : Orders κ} (hrefusal : o.refusal = none) {online : List Text}
    (honline : o.online = some online) :
    ∀ one ∈ online, (one ≠ [] ∧ ',' ∉ one) ∧ trim one = one := by
  intro one hone
  obtain ⟨-, hnames⟩ := Orders.refusal_eq_none hrefusal
  obtain ⟨name, hname, hcase⟩ : ∃ name ∈ o.names, eqIgnoreAsciiCase name one = true := by
    by_contra hnone
    push Not at hnone
    -- A stranger is refused.
    have hstranger : one ∈ (o.online.getD []).filter fun one => !o.names.any fun name =>
      eqIgnoreAsciiCase name one := by
      rw [honline]
      refine List.mem_filter.mpr ⟨hone, ?_⟩
      simpa using hnone
    unfold Orders.refusal at hrefusal
    split at hrefusal
    · cases hrefusal
    · split at hrefusal
      · cases hrefusal
      · rw [if_pos (List.ne_nil_of_mem hstranger)] at hrefusal
        cases hrefusal
  exact plain_of_eqIgnoreAsciiCase (hnames name hname) hcase

include law

/-- **What the roll orders, the cluster reads**: its own name, and orders alike. -/
theorem ClusterCommand.opens_written (hrefusal : o.refusal = none)
    (hscenarios : ∀ scenario ∈ o.scenarios, scenario ∈ SCENARIOS) {cluster : Text}
    (hcluster : clusterNamed cluster = .ok cluster) (shared path : Text) :
    ∃ parsed : Roster κ, parsed.Alike o.roster ∧
      opens (some cluster) ((line κ).written (clusterPairs cluster o shared path)) =
        .ok { o with roster := parsed, rounds := 0, cluster := cluster } := by
  obtain ⟨hsome, hnames⟩ := Orders.refusal_eq_none hrefusal
  have hne : o.roster.nodes ≠ [] := fun hnil => hsome (by simp [Orders.names, Roster.names, hnil])
  obtain ⟨parsed, hparsed, halike⟩ := Roster.parse_text law.toLawful hne hnames
  refine ⟨parsed, halike, ?_⟩
  let given : ∀ f, ClusterFlag.Value κ f
    | .name => some cluster
    | .shared => some shared
    | .nodes => some parsed
    | .online => o.online
    | .stress => some o.stress
    | .scenarios => o.scenarios
    | .rounds => some 0
    | .snapshot => some path
    | .intervalMs => 250
  have hread : (line κ).read ((line κ).written (clusterPairs cluster o shared path))
    ClusterFlag.unsaid = .ok given := by
    refine Command.read_written ?_ (fun pair hpair => ?_) fun f hf => ?_
    · rw [clusterPairs]
      cases o.online <;> split_ifs <;> simp
    · simp only [clusterPairs, List.mem_append, List.mem_cons, List.not_mem_nil, or_false] at hpair
      rcases hpair with (((rfl | rfl | rfl | rfl) | honline) | hchosen) | rfl | rfl
      · show (clusterNamed cluster).map some = _
        rw [hcluster]
        rfl
      · show (level o.stress.name).map some = _
        rw [level, Stress.parse_name]
        rfl
      · show (Roster.parse o.roster.text).map some = _
        rw [hparsed]
        rfl
      · rfl
      · cases hnamed : o.online with
        | none =>
          rw [hnamed] at honline
          cases honline
        | some online =>
          rw [hnamed, List.mem_singleton] at honline
          subst honline
          have hplain := Orders.plain_online hrefusal hnamed
          show Except.ok (some (Switch.names (commas online))) = Except.ok o.online
          rw [Switch.names, filter_splitOn_commas (fun one hone => (hplain one hone).1)
            (fun one hone => (hplain one hone).2) rfl, hnamed]
      · rw [List.mem_ite_nil_left] at hchosen
        rw [List.mem_singleton.mp hchosen.2]
        exact chosen_commas hscenarios
      · rfl
      · rfl
    · -- Nothing is said of a flag that is not among the pairs, and nothing ordered of what it would
      -- say.
      cases f with
      | online =>
        cases hnamed : o.online with
        | none => exact hnamed
        | some online => exact absurd (by simp [clusterPairs, hnamed]) hf
      | scenarios =>
        by_cases hnone : o.scenarios = []
        · exact hnone
        · exact absurd (by simp [clusterPairs, hnone]) hf
      | intervalMs => rfl
      | _ => exact absurd (by simp [clusterPairs]) hf
  rw [clusterNamed] at hcluster
  split_ifs at hcluster with hshaped
  have htrim : trim cluster = cluster := Except.ok.inj hcluster
  have hroot : clusterName (some cluster) = some cluster := by
    have hsome : cluster ≠ [] := by
      rintro rfl
      exact absurd hshaped (by decide)
    rw [clusterName, Option.map_some, htrim, Option.filter_some, if_pos (decide_eq_true hsome)]
  have hrefused : Orders.refusal ⟨parsed, o.online, o.scenarios⟩ = none :=
    (Orders.refusal_congr law (a := ⟨parsed, o.online, o.scenarios⟩) halike rfl rfl).trans hrefusal
  exact opens_eq_ok.mpr ⟨⟨cluster, shared, parsed, o.online, o.stress, o.scenarios, 0, path, 250⟩,
    parse_eq_ok_iff.mpr
    ⟨given, hread, arguments_eq_ok_iff.mpr ⟨⟨rfl, rfl, rfl, rfl, rfl, rfl⟩, rfl, rfl, rfl⟩⟩, hroot,
      hrefused, rfl⟩

/-- **What a cluster orders of a node, the node reads**: its own name, a roster alike, and the roles
and the internet the orders declare of it. -/
theorem NodeCommand.parse_written (hrefusal : o.refusal = none)
    (hscenarios : ∀ scenario ∈ o.scenarios, scenario ∈ SCENARIOS) (hrounds : o.rounds < 2 ^ 64)
    (environment : Text → Bool) {beatMs : Nat} (hbeat : beatMs < 2 ^ 64) (name shared path : Text) :
    ∃ (parsed : Roster κ) (capability : κ), parsed.Alike o.roster ∧
      SameRoles capability (o.roster.capability name) ∧
      Worded.isOnline capability = o.isOnline environment name ∧
      parse ((line κ).written (nodePairs environment beatMs o name shared path)) =
        .ok ⟨name, shared, o.stress, o.rounds, path, nodeIntervalMs o.stress, max 1 beatMs,
          capability, parsed, o.scenarios⟩ := by
  -- The roster has a node, and each name stands whole in a `--nodes` value.
  obtain ⟨hsome, hnames⟩ := Orders.refusal_eq_none hrefusal
  have hne : o.roster.nodes ≠ [] := fun hnil => hsome (by simp [Orders.names, Roster.names, hnil])
  obtain ⟨parsed, hparsed, halike⟩ := Roster.parse_text law.toLawful hne hnames
  obtain ⟨role, hrole, hsame⟩ := law.parse_words (o.capability environment name)
  have honline : Worded.isOnline (o.capability environment name) = o.isOnline environment name :=
    law.isOnline_withOnline _ _
  refine ⟨parsed, Capability.withOnline (o.isOnline environment name) role, halike,
    (law.sameRoles_withOnline _ _).trans (hsame.trans (law.sameRoles_withOnline _ _)),
    law.isOnline_withOnline _ _, ?_⟩
  -- What the node's command line says, flag by flag.
  let given : ∀ f, NodeFlag.Value κ f
    | .name => some name
    | .shared => some shared
    | .stress => some o.stress
    | .rounds => some o.rounds
    | .snapshot => some path
    | .intervalMs => nodeIntervalMs o.stress
    | .beatMs => max 1 beatMs
    | .online => o.isOnline environment name
    | .role => role
    | .nodes => parsed
    | .scenarios => o.scenarios
  have hinterval : nodeIntervalMs o.stress < 2 ^ 64 := by cases o.stress <;> decide
  have hread : (line κ).read ((line κ).written (nodePairs environment beatMs o name shared path))
    NodeFlag.unsaid =
      .ok given := by
    -- Each flag is written once, and its value reads back as what was written.
    refine Command.read_written ?_ (fun pair hpair => ?_) fun f hf => ?_
    · rw [nodePairs]
      split_ifs <;> simp [flags]
    · simp only [nodePairs, flags, List.mem_append, List.mem_cons, List.not_mem_nil,
        or_false] at hpair
      rcases hpair with (((rfl | rfl | rfl | rfl | rfl | rfl) | hchosen) | rfl | rfl) | rfl | rfl
      · rfl
      · show (required (Stress.parse o.stress.name) _).map some = _
        rw [Stress.parse_name]
        rfl
      · show (number _ (decimal o.rounds)).map some = _
        rw [number, wholeNumber_decimal hrounds]
        rfl
      · exact wholeNumber_decimal hinterval _
      · show (number _ (decimal beatMs)).map (max 1) = _
        rw [number, wholeNumber_decimal hbeat]
        rfl
      · exact hparsed
      · rw [List.mem_ite_nil_left] at hchosen
        rw [List.mem_singleton.mp hchosen.2]
        exact chosen_commas hscenarios
      · exact hrole
      · show required (Switch.parse (Switch.text _)) _ = _
        rw [Switch.parse_text, honline]
        rfl
      · rfl
      · rfl
    · -- Only of the scenarios may nothing be said, and then none is ordered.
      cases f with
      | scenarios =>
        by_cases hnone : o.scenarios = []
        · exact hnone
        · exact absurd (by simp [nodePairs, hnone]) hf
      | _ => exact absurd (by simp [nodePairs, flags]) hf
  rw [parse, hread]
  rfl

/-- **Orders reach every node.** Orders that nothing refuses, over the scenarios there are, open the
door of the cluster the roll starts on them, and what the cluster then starts each of its nodes on
says to it what the roll ordered: its name, the level, the scenarios, a roster alike, the roles
declared of it, and whether it may assume the internet; and it runs until it is stopped. -/
theorem handed_down (hrefusal : o.refusal = none)
    (hscenarios : ∀ scenario ∈ o.scenarios, scenario ∈ SCENARIOS) {cluster : Text}
    (hcluster : clusterNamed cluster = .ok cluster) (environment : Text → Bool) {beatMs : Nat}
    (hbeat : beatMs < 2 ^ 64) (shared path : Text) :
    ∃ told : Orders.Whole κ,
      ClusterCommand.opens (some cluster)
        ((ClusterCommand.line κ).written (clusterPairs cluster o shared path)) = .ok told ∧
      told.names = o.names ∧ told.cluster = cluster ∧
      ∀ name shared path, ∃ a : NodeArguments κ,
        NodeCommand.parse ((NodeCommand.line κ).written
          (nodePairs environment beatMs told name shared path)) = .ok a ∧
        (a.name = name ∧ a.shared = shared ∧ a.snapshot = path) ∧
        a.stress = o.stress ∧ a.scenarios = o.scenarios ∧ a.rounds = 0 ∧
        a.beatMs = max 1 beatMs ∧ a.roster.Alike o.roster ∧
        SameRoles a.capability (o.roster.capability name) ∧
        Worded.isOnline a.capability = o.isOnline environment name := by
  obtain ⟨roster, halike, hopens⟩ :=
    ClusterCommand.opens_written law hrefusal hscenarios hcluster shared path
  -- What the cluster opens with is what was ordered, its roster read back.
  refine ⟨_, hopens, halike.names, rfl, fun name shared path => ?_⟩
  have htold : Orders.refusal ⟨roster, o.online, o.scenarios⟩ = none :=
    (Orders.refusal_congr law (a := ⟨roster, o.online, o.scenarios⟩) halike rfl rfl).trans hrefusal
  obtain ⟨parsed, capability, halike', hsame, honline, hparse⟩ := NodeCommand.parse_written law
    (o := { o with roster := roster, rounds := 0, cluster := cluster }) htold hscenarios
    (Nat.two_pow_pos 64) environment hbeat name shared path
  exact ⟨_, hparse, ⟨rfl, rfl, rfl⟩, rfl, rfl, rfl, rfl, halike'.trans halike,
    hsame.trans (halike.capability name), honline⟩

end Down

/-! ### Orders of concrete roles -/

namespace Roles

instance : Worded Roles where
  words r := ['+'].intercalate r.words
  parse raw := if raw = [] then .ok nothing
    else (raw.splitOn '+').foldlM (fun roles word => read word roles) nothing
  isOnline := online

/-- The roles are told and read back as the `node` crate promises of a declaration. -/
theorem worded : Worded.Lawful Roles where
  toLawful := lawful
  parse_words r := by
    -- Of no role there is no word, and then it declares none.
    by_cases hwords : r.words = []
    · have hcan : ∀ s, Capability.can nothing s = Capability.can r s := by
        intro s
        change nothing.can s = r.can s
        rw [(r.can_of_words hwords s).1]
        cases s <;> rfl
      refine ⟨nothing, ?_, hcan, (r.can_of_words hwords .receive).2.symm,
        List.filter_congr fun s _ => hcan s⟩
      show (if ['+'].intercalate r.words = [] then _ else _) = _
      rw [hwords]
      rfl
    · refine ⟨{ r with online := false }, ?_, fun _ => rfl, rfl, rfl⟩
      have hread := read_words r hwords
      have hsome : ['+'].intercalate r.words ≠ [] := by
        intro hnil
        rw [hnil] at hread
        cases hread
      exact (if_neg hsome).trans hread
  sameRoles_withOnline online r := ⟨fun _ => rfl, rfl, rfl⟩
  isOnline_withOnline _ _ := rfl
  declaresNoStage_iff r := by
    rw [show Capability.declaresNoStage r = Stage.all.all fun stage => !r.can stage from rfl,
      List.all_eq_true]
    simp only [Bool.not_eq_true']
    exact ⟨fun h stage => h stage (Stage.mem_all stage), fun h stage _ => h stage⟩

/-- Three nodes ordered to hand on as hard as they can, one of them on the internet. -/
def brutally : Orders.Whole Roles where
  roster := path
  online := some ["WORK".toList]
  scenarios := ["round-trip".toList, "filing".toList]
  stress := .brutal
  rounds := 0
  cluster := []

theorem handed_down_brutally : ∃ told : Orders.Whole Roles,
    ClusterCommand.opens (some "C1".toList)
      ((ClusterCommand.line Roles).written
        (clusterPairs "C1".toList brutally "shared".toList "c1.xmip".toList)) = .ok told ∧
    ∃ a : NodeArguments Roles, NodeCommand.parse ((NodeCommand.line Roles).written
      (nodePairs (fun _ => false) 100 told "work".toList "shared".toList "work.xmip".toList)) =
        .ok a ∧
      Worded.isOnline a.capability = true ∧ a.stress = .brutal := by
  have hnamed : clusterNamed "C1".toList = .ok "C1".toList := by decide
  have hbeat : 100 < 2 ^ 64 := by decide
  obtain ⟨told, hopens, -, -, hnodes⟩ :=
    handed_down worded (o := brutally) (by decide) (by decide) hnamed (fun _ => false) hbeat
      "shared".toList "c1.xmip".toList
  obtain ⟨a, hparse, -, hstress, -, -, -, -, -, honline⟩ :=
    hnodes "work".toList "shared".toList "work.xmip".toList
  exact ⟨told, hopens, a, hparse, honline, hstress⟩

end Roles

end XmipEssentials
