import XmipEssentials.Lib.Guarded
import XmipEssentials.Roles

/-!
# The nodes a run starts as a service

A run starts each of its nodes as a process of the service: those that keep Storage first, the
others once every one of those said it accepts work. It reads what each prints, and stops them by
ending their input: the others first, the Storage nodes once they are gone, each waited for to drain
and one that does not, killed.

* `start_staged` — wherever a run of a start has got to, however the processes and the calls go:
  what was started is a part of the order, each node once, and a node that keeps no Storage only
  where every Storage node said it accepts work. Where the start ended well, all of them were
  started, said so, and have their input open; where it was refused, no process it started still
  runs with its input open.
* `stop_drains` — a stop leaves none running; a Storage node's input is not ended before every other
  node is gone; and one is killed only where its input was ended and its time to drain is over, or
  it cannot be asked.
-/

namespace XmipEssentials

open Text Conc

namespace Serving

/-- A node as the cluster's file declares it: its name, and its roles. -/
abbrev Declared : Type := Text × List Text

/-- Whether a node declares any of the roles. -/
def holding (node : Declared) (any : List Text) : Bool := any.any fun role => node.2.contains role

/-- Whether a node keeps Storage. -/
def storing (node : Declared) : Bool := holding node ["storage".toList]

/-- A call the run makes to start and to stop nodes, by what it answers. -/
inductive ServedOp (B : Type) : Type → Type where
  /-- Where the nodes' Applications are placed, or why they cannot be. -/
  | placed (declared : List Declared) : ServedOp B (Except Text (List B))
  | clusterText (cluster : Text) (declared : List Declared) (placed : List B) :
      ServedOp B (Except Text Text)
  /-- A node's configuration written and its certificate issued: where it lies, or why not. -/
  | configured (text cluster name : Text) : ServedOp B (Except Text Text)
  /-- The service started as this node over its configuration, its input held open: its process, or
  why not. -/
  | spawned (name configuration : Text) : ServedOp B (Except Text Nat)
  /-- What a process prints until it ends or the bound on its start is over, line by line. -/
  | heard (child : Nat) : ServedOp B (List Text)
  /-- The time since some start, in nanoseconds. -/
  | instant : ServedOp B Nat
  | sleep : ServedOp B Unit
  | closeInput (child : Nat) : ServedOp B Unit
  /-- Whether a process is seen to have exited, where it can be asked. -/
  | tryWait (child : Nat) : ServedOp B (Option Bool)
  | kill (child : Nat) : ServedOp B Unit
  /-- Waited for until it has exited. -/
  | wait (child : Nat) : ServedOp B Unit

/-- How long a node may take to drain once its input ends, in nanoseconds. -/
def STOPPING : Nat := 30 * 10 ^ 9

/-- How long a wait sleeps between two looks, in nanoseconds. -/
def NAP : Nat := 10 ^ 8

/-- How many times a wait can look before it is over. -/
def polls : Nat := 301

/-- One node the run started: whether it keeps Storage, and its process. -/
structure Started where
  stores : Bool
  child : Nat
  deriving DecidableEq

/-- The nodes the run started, and where their Applications are bound. -/
structure Served (B : Type) where
  started : List Started
  bindings : List B

variable {B N κ : Type}

/-- Killed, where it did not drain. -/
def Started.ended (one : Started) : Prog (ServedOp B) PUnit := do
  Prog.perform (.kill one.child)
  Prog.perform (.wait one.child)

/-! ### Starting -/

/-- The scope of a node, as it says it accepts work. -/
def nodeScope (cluster name : Text) : Text :=
  "xmip:///".toList ++ cluster ++ "/node/".toList ++ name

/-- The node's local endpoint. -/
def endpoint (cluster node : Text) : Text := "xmip-".toList ++ cluster ++ '-' :: node

/-- Whether a line says that the scope accepts work. -/
def accepts (scope line : Text) : Bool := decide (scope ++ " accepts work".toList <:+: line)

/-- Whether a node said that it accepts work, of the lines it printed; what it said last instead. -/
def accepting (scope : Text) : List Text → List Text → Except Text Unit
  | [], heard =>
    .error ("never said it accepts work: ".toList ++ heard.getLast?.getD "it said nothing".toList)
  | line :: lines, heard =>
    if accepts scope line then .ok () else accepting scope lines (heard ++ [line])

/-- One node of a group started, and waited for later; or refused, all those started ended. -/
def spawnOne (cluster text : Text) (state : List Started × List (Text × Nat)) (node : Declared) :
    Prog (ServedOp B) ((List Started × List (Text × Nat)) × Option Text) := do
  let spawning ← (do
    match ← Prog.perform (.configured text cluster node.1) with
    | .error problem => pure (.error problem)
    | .ok configuration => Prog.perform (.spawned node.1 configuration))
  match spawning with
  | .ok child => pure ((state.1 ++ [⟨storing node, child⟩], state.2 ++ [(node.1, child)]), none)
  | .error problem =>
    state.1.forM Started.ended
    pure (state, some ("REFUSED: ".toList ++ node.1 ++ ", as xmip-service: ".toList ++ problem))

/-- One node of a group waited for until it accepts work; or refused, all those started ended. -/
def acceptOne (cluster : Text) (started : List Started) (_ : Unit) (waiting : Text × Nat) :
    Prog (ServedOp B) (Unit × Option Text) := do
  match accepting (nodeScope cluster waiting.1) (← Prog.perform (.heard waiting.2)) [] with
  | .ok () => pure ((), none)
  | .error problem =>
    started.forM Started.ended
    pure
      ((),
        some ("REFUSED: ".toList ++ waiting.1 ++ ", started as xmip-service, ".toList ++ problem))

/-- A group of nodes started, each in turn, and then each waited for. -/
def startGroup (cluster text : Text) (started : List Started) (group : List Declared) :
    Prog (ServedOp B) (List Started × Option Text) := do
  let spawning ← Prog.foldUntil (spawnOne cluster text) group (started, [])
  match spawning.2 with
  | some refused => pure (spawning.1.1, some refused)
  | none =>
    let waiting ← Prog.foldUntil (acceptOne cluster spawning.1.1) spawning.1.2 ()
    pure (spawning.1.1, waiting.2)

/-- The nodes a run starts of those declared: those it names. -/
def named (roles : List Declared) (names : List Text) : List Declared :=
  roles.filter fun node => names.contains node.1

/-- The nodes that keep Storage. -/
def stores (declared : List Declared) : List Declared := declared.filter storing

/-- The nodes that do not. -/
def rest (declared : List Declared) : List Declared := declared.filter fun node => !storing node

/-- Every node named, started: those keeping Storage first, the rest once those accept work; and the
real nodes the rig reads them as, which `localNode` makes of each at its endpoint. -/
def start [Capability κ] (localNode : Text → Text → κ → Except Text N)
    (roles : Except Text (List Declared)) (cluster : Text) (roster : Roster κ) (names : List Text) :
    Prog (ServedOp B) (Except Text (Served B × List N)) := do
  match roles with
  | .error why => pure (.error why)
  | .ok roles =>
    let declared := named roles names
    match ← Prog.perform (.placed declared) with
    | .error why => pure (.error why)
    | .ok placed =>
      match ← Prog.perform (.clusterText cluster declared placed) with
      | .error why => pure (.error why)
      | .ok text =>
        let starting ← Prog.foldUntil (startGroup cluster text) [stores declared, rest declared] []
        match starting.2 with
        | some refused => pure (.error refused)
        | none =>
          match declared.mapM fun node =>
            localNode node.1 (endpoint cluster node.1) (roster.capability node.1) with
          | .error why => do
            -- What was started goes out of scope, and with each process the end of its input the
            -- run held.
            starting.1.forM fun one => Prog.perform (.closeInput one.child)
            pure (.error why)
          | .ok real => pure (.ok (⟨starting.1, placed⟩, real))

/-! ### Stopping -/

/-- Whether a process exited before the deadline, looked at again and again. -/
def exited (deadline child : Nat) : Nat → Prog (ServedOp B) Bool
  | 0 => pure false
  | polls + 1 => do
    match ← Prog.perform (.tryWait child) with
    | some true => pure true
    | some false =>
      let now ← Prog.perform .instant
      if now < deadline then
        Prog.perform .sleep
        exited deadline child polls
      else pure false
    | none => pure false

/-- One node waited for to drain, and killed where it does not. -/
def drain (one : Started) : Prog (ServedOp B) PUnit := do
  let now ← Prog.perform .instant
  if ← exited (now + STOPPING) one.child polls then pure ⟨⟩ else one.ended

/-- The nodes of a group stopped: each by the end of its input, and each waited for. -/
def stopGroup (group : List Started) : Prog (ServedOp B) PUnit := do
  group.forM fun one => Prog.perform (.closeInput one.child)
  group.forM drain

/-- Every node it started stopped: those that keep no Storage first, then the Storage nodes. -/
def Served.stop (s : Served B) : Prog (ServedOp B) PUnit := do
  let parts := s.started.partition Started.stores
  [parts.2, parts.1].forM stopGroup
/-! ### The processes -/

/-- A process of the service: the node it is, what it printed, when its input was ended, whether
asking after it failed, and whether it still runs. -/
structure Child where
  name : Text
  printed : List Text
  closed : Option Nat
  vain : Bool
  running : Bool

/-- A process just started. -/
def Child.started (name : Text) : Child := ⟨name, [], none, false, true⟩

/-- A line printed, where it still runs. -/
def Child.print (line : Text) (c : Child) : Child :=
  if c.running then { c with printed := c.printed ++ [line] } else c

def Child.exit (c : Child) : Child := { c with running := false }

/-- Its input ended, where it was not. -/
def Child.close (clock : Nat) (c : Child) : Child := { c with closed := c.closed.or (some clock) }

/-- It could not be asked whether it exited. -/
def Child.askInVain (c : Child) : Child := { c with vain := true }

/-- The time, and the processes started, each known by its place. -/
structure World where
  clock : Nat
  children : List Child

namespace World

/-- Nothing started yet. -/
def idle (clock : Nat) : World := ⟨clock, []⟩

/-- One process changed. -/
def change (w : World) (child : Nat) (f : Child → Child) : World :=
  { w with children := w.children.modify child f }

/-- The names of the processes, in the order they were started. -/
def names (w : World) : List Text := w.children.map Child.name

/-- A process is gone. -/
def Gone (w : World) (child : Nat) : Prop := ∀ c, w.children[child]? = some c → c.running = false

/-- A process had its input ended. -/
def Closed (w : World) (child : Nat) : Prop := ∀ c, w.children[child]? = some c → c.closed ≠ none

/-- A process said that its node accepts work. -/
def Accepts (w : World) (cluster : Text) (child : Nat) : Prop :=
  ∃ c, w.children[child]? = some c ∧ ∃ line ∈ c.printed, accepts (nodeScope cluster c.name) line =
    true

/-- Every process has its input open. -/
def Held (w : World) : Prop := ∀ c ∈ w.children, c.closed = none

/-- No input was ended at a time to come. -/
def Timely (w : World) : Prop := ∀ c ∈ w.children, ∀ time, c.closed = some time → time ≤ w.clock

/-- What a process does of itself, and time. -/
inductive Move : World → World → Prop where
  | passes (w : World) (nanoseconds : Nat) : Move w { w with clock := w.clock + nanoseconds }
  | prints (w : World) (child : Nat) (line : Text) : Move w (w.change child (Child.print line))
  | exits (w : World) (child : Nat) : Move w (w.change child Child.exit)

abbrev Moves : World → World → Prop := Relation.ReflTransGen Move

end World

/-- What a call does. -/
def ServedOp.Acts : {β : Type} → ServedOp B β → World → β → World → Prop
  | _, .placed _, w, _, w' => w' = w
  | _, .clusterText _ _ _, w, _, w' => w' = w
  | _, .configured _ _ _, w, _, w' => w' = w
  | _, .spawned _ _, w, .error _, w' => w' = w
  | _, .spawned name _, w, .ok child, w' =>
    child = w.children.length ∧ w' = { w with children := w.children ++ [.started name] }
  | _, .heard child, w, lines, w' =>
    lines <+: ((w.children[child]?).map Child.printed).getD [] ∧ w' = w
  | _, .instant, w, now, w' => now = w.clock ∧ w' = w
  | _, .sleep, w, _, w' => w' = { w with clock := w.clock + NAP }
  | _, .closeInput child, w, _, w' => w' = w.change child (Child.close w.clock)
  | _, .tryWait child, w, some true, w' => w.Gone child ∧ w' = w
  | _, .tryWait _, w, some false, w' => w' = w
  | _, .tryWait child, w, none, w' => w' = w.change child Child.askInVain
  | _, .kill _, w, _, w' => w' = w
  | _, .wait child, w, _, w' => w.Gone child ∧ w' = w

/-- What a call may do: first the processes move and time passes, and then it acts. -/
def beside : Exec Unit (ServedOp B) World :=
  fun _ _ op w b w' => ∃ v, World.Moves w v ∧ op.Acts v b w'

/-! ### What lasts -/

/-- What lasts of a process. -/
structure Child.Later (c c' : Child) : Prop where
  name : c'.name = c.name
  printed : c.printed <+: c'.printed
  gone : c.running = false → c'.running = false
  closed : ∀ time, c.closed = some time → c'.closed = some time
  vain : c.vain = true → c'.vain = true

private theorem Child.Later.refl (c : Child) : c.Later c :=
  ⟨rfl, List.prefix_refl _, id, fun _ => id, id⟩

private theorem Child.later_print (line : Text) (c : Child) : c.Later (c.print line) := by
  unfold Child.print
  split
  · exact ⟨rfl, List.prefix_append _ _, id, fun _ => id, id⟩
  · exact .refl c

private theorem Child.later_exit (c : Child) : c.Later c.exit :=
  ⟨rfl, List.prefix_refl _, fun _ => rfl, fun _ => id, id⟩

private theorem Child.later_close (clock : Nat) (c : Child) : c.Later (c.close clock) := by
  refine ⟨rfl, List.prefix_refl _, id, fun time htime => ?_, id⟩
  rw [Child.close, htime]
  rfl

private theorem Child.later_askInVain (c : Child) : c.Later c.askInVain :=
  ⟨rfl, List.prefix_refl _, id, fun _ => id, fun _ => rfl⟩

private theorem Child.closed_print (line : Text) (c : Child) :
    (c.print line).closed = c.closed := by
  unfold Child.print
  split <;> rfl

private theorem Child.closed_exit (c : Child) : c.exit.closed = c.closed := rfl

private theorem Child.closed_askInVain (c : Child) : c.askInVain.closed = c.closed := rfl

private theorem Child.Later.trans {a b c : Child} (h : a.Later b) (h' : b.Later c) : a.Later c :=
  ⟨h'.name.trans h.name, h.printed.trans h'.printed, h'.gone ∘ h.gone,
    fun time => h'.closed time ∘ h.closed time, h'.vain ∘ h.vain⟩

namespace World

variable {w w' v : World} {child : Nat} {cluster : Text}

/-- What lasts of the processes: each keeps its place, and the time does not go back. -/
structure Later (w w' : World) : Prop where
  clock : w.clock ≤ w'.clock
  timely : w.Timely → w'.Timely
  child : ∀ (i : Nat) (c : Child), w.children[i]? = some c → ∃ c', w'.children[i]? = some c' ∧
    c.Later c'

private theorem Later.refl (w : World) : w.Later w :=
  ⟨Nat.le_refl _, id, fun _ c hc => ⟨c, hc, Child.Later.refl c⟩⟩

private theorem Later.trans (h : w.Later v) (h' : v.Later w') : w.Later w' := by
  refine ⟨h.clock.trans h'.clock, h'.timely ∘ h.timely, fun i c hc => ?_⟩
  obtain ⟨c', hc', hlater⟩ := h.child i c hc
  obtain ⟨c'', hc'', hlater'⟩ := h'.child i c' hc'
  exact ⟨c'', hc'', hlater.trans hlater'⟩

/-- A process there is once one was changed is as it was, or as it was changed. -/
theorem mem_change {f : Child → Child} {c : Child} (h : c ∈ (w.change child f).children) :
    ∃ c' ∈ w.children, c = c' ∨ c = f c' := by
  obtain ⟨i, hi⟩ := List.mem_iff_getElem?.mp h
  rw [change, List.getElem?_modify] at hi
  obtain ⟨c', hc', rfl⟩ := Option.map_eq_some_iff.mp hi
  refine ⟨c', List.mem_of_getElem? hc', ?_⟩
  split
  · exact .inr rfl
  · exact .inl rfl

/-- One process changed to what it may later be, its input not ended at a time to come. -/
theorem later_change {f : Child → Child} (hf : ∀ c : Child, c.Later (f c)) (w : World) (child : Nat)
    (htimely : ∀ c time, (f c).closed = some time → c.closed = some time ∨ time ≤ w.clock) :
    w.Later (w.change child f) := by
  refine ⟨Nat.le_refl _, fun h c hc time htime => ?_, fun i c hc => ?_⟩
  · obtain ⟨c', hc', rfl | rfl⟩ := mem_change hc
    · exact h c hc' time htime
    · exact (htimely c' time htime).elim (h c' hc' time) id
  rw [change, List.getElem?_modify, hc]
  refine ⟨_, rfl, ?_⟩
  dsimp only [id_eq]
  split
  · exact hf c
  · exact .refl c

/-- The processes keep their names, where each changed does. -/
theorem names_change {f : Child → Child} (hf : ∀ c, (f c).name = c.name) (w : World) (child : Nat) :
    (w.change child f).names = w.names := by
  apply List.ext_getElem?
  intro i
  rw [names, names, List.getElem?_map, List.getElem?_map, change, List.getElem?_modify,
    Option.map_eq_map, Option.map_map]
  congr 1
  funext c
  dsimp only [Function.comp_apply]
  split
  · exact hf c
  · rfl

/-- Their inputs stay open, where each changed keeps its own. -/
theorem Held.change {f : Child → Child} (h : w.Held)
    (hf : ∀ c, c.closed = none → (f c).closed = none) (child : Nat) :
    (w.change child f).Held := by
  intro c hc
  obtain ⟨c', hc', rfl | rfl⟩ := mem_change hc
  · exact h c hc'
  · exact hf c' (h c' hc')

/-- The process changed is as it was changed. -/
theorem getElem?_change {f : Child → Child} {c : Child}
    (h : (w.change child f).children[child]? = some c) :
    ∃ c', w.children[child]? = some c' ∧ c = f c' := by
  rw [change, List.getElem?_modify] at h
  obtain ⟨c', hc', rfl⟩ := Option.map_eq_some_iff.mp h
  exact ⟨c', hc', if_pos rfl⟩

/-- An input ended is. -/
theorem closed_change (w : World) (child : Nat) :
    (w.change child (Child.close w.clock)).Closed child := by
  intro c hc
  obtain ⟨c', -, rfl⟩ := getElem?_change hc
  rw [Child.close]
  cases c'.closed <;> exact Option.some_ne_none _

/-- Time passes. -/
theorem later_passes (w : World) (nanoseconds : Nat) :
    w.Later { w with clock := w.clock + nanoseconds } :=
  ⟨Nat.le_add_right _ _, fun h c hc time htime => (h c hc time htime).trans (Nat.le_add_right _ _),
    fun _ c hc => ⟨c, hc, Child.Later.refl c⟩⟩

private theorem Moves.later (h : Moves w v) :
    w.Later v ∧ v.names = w.names ∧ (w.Held → v.Held) := by
  induction h with
  | refl => exact ⟨.refl w, rfl, id⟩
  | tail _ hmove ih =>
    obtain ⟨hlater, hnames, hheld⟩ := ih
    cases hmove with
    | passes ns => exact ⟨hlater.trans (later_passes _ ns), hnames, hheld⟩
    | prints child line =>
      have hkeeps := Child.later_print line
      refine ⟨hlater.trans (later_change hkeeps _ _ fun c time htime => ?_),
        (names_change (fun c => (hkeeps c).name) _ _).trans hnames,
        fun h => (hheld h).change (fun c hopen => (Child.closed_print line c).trans hopen) _⟩
      exact .inl (Child.closed_print line c ▸ htime)
    | exits child =>
      have hkeeps := Child.later_exit
      exact ⟨hlater.trans (later_change hkeeps _ _ fun _ _ => .inl),
        (names_change (fun c => (hkeeps c).name) _ _).trans hnames,
        fun h => (hheld h).change (fun c hopen => (Child.closed_exit c).trans hopen) _⟩

private theorem length_names (w : World) : w.names.length = w.children.length := List.length_map _

/-- Where none was started, each process was one before. -/
theorem Later.before (h : w.Later w') (hnames : w'.names = w.names) {i : Nat} {c' : Child}
    (hc' : w'.children[i]? = some c') :
    ∃ c, w.children[i]? = some c ∧ c.Later c' := by
  have hbound : i < w.children.length := by
    rw [← w.length_names, ← hnames, w'.length_names]
    exact (List.getElem?_eq_some_iff.mp hc').1
  obtain ⟨c'', hc'', hlater⟩ := h.child i _ (List.getElem?_eq_getElem hbound)
  rw [hc'', Option.some.injEq] at hc'
  exact ⟨_, List.getElem?_eq_getElem hbound, hc' ▸ hlater⟩

private theorem Later.gone (h : w.Later w') (hnames : w'.names = w.names) (hgone : w.Gone child) :
    w'.Gone child := by
  intro c' hc'
  obtain ⟨c, hc, hlater⟩ := h.before hnames hc'
  exact hlater.gone (hgone c hc)

private theorem Later.closed (h : w.Later w') (hnames : w'.names = w.names)
    (hclosed : w.Closed child) :
    w'.Closed child := by
  intro c' hc'
  obtain ⟨c, hc, hlater⟩ := h.before hnames hc'
  obtain ⟨time, htime⟩ := Option.ne_none_iff_exists'.mp (hclosed c hc)
  rw [hlater.closed time htime]
  exact Option.some_ne_none time

theorem Later.accepts (h : w.Later w') (haccepts : w.Accepts cluster child) :
    w'.Accepts cluster child := by
  obtain ⟨c, hc, line, hline, hspoken⟩ := haccepts
  obtain ⟨c', hc', hlater⟩ := h.child child c hc
  exact ⟨c', hc', line, hlater.printed.subset hline, hlater.name ▸ hspoken⟩

end World

/-- The node a call starts, where it starts one. -/
def ServedOp.starts : {β : Type} → ServedOp B β → β → List Text
  | _, .spawned name _, .ok _ => [name]
  | _, _, _ => []

/-- Whether a call ends an input. -/
def ServedOp.closes : {β : Type} → ServedOp B β → Bool
  | _, .closeInput _ => true
  | _, _ => false

/-- **What a call leaves.** All that lasts, the processes there were and the one it started, and the
inputs open where it ends none. -/
theorem later_of_beside {β : Type} {op : ServedOp B β} {w w' : World} {b : β}
    (h : beside () op w b w') :
    w.Later w' ∧ w'.names = w.names ++ op.starts b ∧ (op.closes = false → w.Held → w'.Held) := by
  obtain ⟨v, hmoves, hacts⟩ := h
  obtain ⟨hlater, hnames, hheld⟩ := hmoves.later
  -- a call that starts nothing and closes nothing leaves the moves of the others
  have hsame (hw : w' = v) (hnone : op.starts b = []) :
      w.Later w' ∧ w'.names = w.names ++ op.starts b ∧ (op.closes = false → w.Held → w'.Held) := by
    rw [hw, hnone, List.append_nil]
    exact ⟨hlater, hnames, fun _ => hheld⟩
  cases op with
  | placed | clusterText | configured | kill => exact hsame hacts rfl
  -- one more child, and its input is open
  | spawned name configuration =>
    cases b with
    | error => exact hsame hacts rfl
    | ok child =>
      obtain ⟨-, rfl⟩ := hacts
      refine ⟨hlater.trans ⟨Nat.le_refl _, fun h c hc time htime => ?_,
        fun i c hc => ⟨c, ?_, .refl c⟩⟩, ?_, fun _ hopen c hc => ?_⟩
      · rcases List.mem_append.mp hc with hc | hc
        · exact h c hc time htime
        · rw [List.mem_singleton.mp hc] at htime
          cases htime
      · rwa [List.getElem?_append_left (List.getElem?_eq_some_iff.mp hc).1]
      · rw [World.names, List.map_append]
        exact congrArg (· ++ [name]) hnames
      · rcases List.mem_append.mp hc with hc | hc
        · exact hheld hopen c hc
        · rw [List.mem_singleton.mp hc]
          rfl
  | heard => exact hsame hacts.2 rfl
  | instant => exact hsame hacts.2 rfl
  -- the clock goes on by the nap
  | sleep =>
    subst hacts
    exact ⟨hlater.trans (World.later_passes v NAP), hnames.trans (List.append_nil _).symm,
      fun _ => hheld⟩
  -- an input once closed keeps the time it was closed at
  | closeInput child =>
    subst hacts
    have hkeeps := Child.later_close v.clock
    refine ⟨hlater.trans (World.later_change hkeeps _ _ fun c time htime => ?_), ?_, nofun⟩
    · rw [Child.close] at htime
      cases hclosed : c.closed with
      | some before => exact .inl (by rwa [hclosed] at htime)
      | none =>
        rw [hclosed, Option.none_or, Option.some.injEq] at htime
        exact .inr htime.ge
    rw [World.names_change (fun c => (hkeeps c).name), hnames]
    exact (List.append_nil _).symm
  -- only an exit not seen changes what the child was asked
  | tryWait child =>
    match b with
    | some true => exact hsame hacts.2 rfl
    | some false => exact hsame hacts rfl
    | none =>
      obtain rfl := hacts
      have hkeeps := Child.later_askInVain
      refine ⟨hlater.trans (World.later_change hkeeps _ _ fun _ _ => .inl), ?_,
        fun _ h => (hheld h).change (fun c hopen => (Child.closed_askInVain c).trans hopen) _⟩
      rw [World.names_change (fun c => (hkeeps c).name), hnames]
      exact (List.append_nil _).symm
  | wait => exact hsame hacts.2 rfl

/-! ### Processes that oblige -/

/-- Every call goes well: a process says it accepts work once it is listened to, and exits once it
is asked. -/
def obliging (cluster : Text) : ⦃β : Type⦄ → ServedOp B β → World → β × World
  | _, .placed _, w => (.ok [], w)
  | _, .clusterText _ _ _, w => (.ok [], w)
  | _, .configured _ _ _, w => (.ok [], w)
  | _, .spawned name _, w =>
    (.ok w.children.length, { w with children := w.children ++ [.started name] })
  | _, .heard child, w =>
    let name := ((w.children[child]?).map Child.name).getD []
    let v := w.change child (Child.print (nodeScope cluster name ++ " accepts work".toList))
    (((v.children[child]?).map Child.printed).getD [], v)
  | _, .instant, w => (w.clock, w)
  | _, .sleep, w => ((), { w with clock := w.clock + NAP })
  | _, .closeInput child, w => ((), w.change child (Child.close w.clock))
  | _, .tryWait child, w => (some true, w.change child Child.exit)
  | _, .kill _, w => ((), w)
  | _, .wait child, w => ((), w.change child Child.exit)

private theorem gone_exit (w : World) (child : Nat) : (w.change child Child.exit).Gone child := by
  intro c hc
  obtain ⟨c', -, rfl⟩ := World.getElem?_change hc
  rfl

private theorem beside_obliging (cluster : Text) ⦃β : Type⦄ (op : ServedOp B β) (w : World) :
    beside () op w (obliging cluster op w).1 (obliging cluster op w).2 := by
  cases op with
  | placed | clusterText | configured | sleep | closeInput | kill => exact ⟨w, .refl, rfl⟩
  | spawned | instant => exact ⟨w, .refl, rfl, rfl⟩
  | heard child => exact ⟨_, .single (.prints w child _), List.prefix_refl _, rfl⟩
  | tryWait child => exact ⟨_, .single (.exits w child), gone_exit w child, rfl⟩
  | wait child => exact ⟨_, .single (.exits w child), gone_exit w child, rfl⟩

/-- One node that keeps Storage, behind one that does not. -/
def restAndStored : List Declared :=
  [("a".toList, ["receiving".toList]), ("b".toList, ["storage".toList])]

/-- Both started. -/
def startedBoth : Prog (ServedOp Unit) (Except Text (Served Unit × List Unit)) :=
  start (fun _ _ (_ : Roles) => .ok ()) (.ok restAndStored) "c".toList ⟨[]⟩ ["a".toList, "b".toList]

/-! ### A start -/

/-- No process still runs with its input open. -/
def World.Over (w : World) : Prop := ∀ c ∈ w.children, c.running = false ∨ c.closed ≠ none

/-- How far a start has got: the nodes started are a part of the order, each once, and a node beyond
those that keep Storage only where every one of those said it accepts work. -/
structure Staged (cluster : Text) (stored others : List Declared) (w : World) : Prop where
  names : w.names <+: (stored ++ others).map Prod.fst
  accepted : stored.length < w.children.length → ∀ i < stored.length, w.Accepts cluster i

/-- The nodes of `behind` were started, in turn, and their inputs are open. -/
structure Begun (behind : List Declared) (started : List Started) (w : World) : Prop where
  names : w.names = behind.map Prod.fst
  started : started = behind.mapIdx fun i node => ⟨storing node, i⟩
  held : w.Held

variable {cluster text : Text} {stored others behind before group : List Declared}
    {started : List Started} {w w' : World}

private theorem Begun.length (h : Begun behind started w) : w.children.length = behind.length := by
  rw [← w.length_names, h.names, List.length_map]

/-- Each process there is was started. -/
theorem Begun.every (h : Begun behind started w) {i : Nat} (hi : i < w.children.length) :
    ∃ one ∈ started, one.child = i := by
  have hi' : i < behind.length := h.length ▸ hi
  refine ⟨⟨storing behind[i], i⟩, ?_, rfl⟩
  rw [h.started, List.mem_mapIdx]
  exact ⟨i, hi', rfl⟩

/-- Each process is that of one started, as long as none other is. -/
theorem Begun.found (h : Begun behind started w) (hnames : w'.names = w.names) {c : Child}
    (hc : c ∈ w'.children) :
    ∃ one ∈ started, w'.children[one.child]? = some c := by
  obtain ⟨i, hi⟩ := List.mem_iff_getElem?.mp hc
  have hbound : i < w.children.length := by
    rw [← w.length_names, ← hnames, w'.length_names]
    exact (List.getElem?_eq_some_iff.mp hi).1
  obtain ⟨one, hone, rfl⟩ := h.every hbound
  exact ⟨one, hone, hi⟩

/-- A call that starts nothing and ends no input. -/
theorem Begun.kept {β : Type} {op : ServedOp B β} {b : β} (h : Begun behind started w)
    (hbeside : beside () op w b w') (hstarts : op.starts b = []) (hcloses : op.closes = false) :
    Begun behind started w' := by
  obtain ⟨-, hnames, hheld⟩ := later_of_beside hbeside
  rw [hstarts, List.append_nil] at hnames
  exact ⟨hnames.trans h.names, h.started, hheld hcloses h.held⟩

private theorem Begun.staged (h : Begun behind started w) (hbehind : behind <+: stored ++ others)
    (haccepted : behind.length ≤ stored.length ∨ ∀ i < stored.length, w.Accepts cluster i) :
    Staged cluster stored others w := by
  refine ⟨h.names ▸ hbehind.map Prod.fst, fun hbeyond => haccepted.resolve_left ?_⟩
  rw [h.length] at hbeyond
  exact Nat.not_le_of_lt hbeyond

private theorem Staged.kept (h : Staged cluster stored others w) (hlater : w.Later w')
    (hnames : w'.names = w.names) :
    Staged cluster stored others w' := by
  refine ⟨hnames ▸ h.names, fun hbeyond i hi => hlater.accepts (h.accepted ?_ i hi)⟩
  rwa [← w.length_names, ← hnames, w'.length_names]

/-- One after another over those started: as long as `I` holds, which lasts, each leaves its process
as `Q` says, which lasts too. -/
theorem guarded_each {guard : ∀ ⦃β : Type⦄, ServedOp B β → World → Prop}
    {body : Started → Prog (ServedOp B) PUnit} (I : World → Prop) (Q : World → Nat → Prop)
    (hI : ∀ {v v' : World}, v.Later v' → v'.names = v.names → I v → I v')
    (hQ : ∀ {v v' : World} {child : Nat}, v.Later v' → v'.names = v.names → Q v child → Q v' child)
    (started : List Started) (hbody : ∀ one ∈ started, ∀ v, I v →
      (body one).Guarded beside () guard (fun _ v' => v.Later v' ∧ v'.names = v.names ∧
        Q v' one.child) v)
    (h : I w) : (started.forM body).Guarded beside () guard
      (fun _ w' => w.Later w' ∧ w'.names = w.names ∧ ∀ one ∈ started, Q w' one.child) w := by
  let P (behind : List Started) (v : World) : Prop := w.Later v ∧ v.names = w.names ∧
    ∀ one ∈ behind, Q v one.child
  refine Prog.Guarded.forM P started ?_ [] w ⟨.refl w, rfl, nofun⟩
  intro behind one hone v ⟨hlater, hnames, hbehind⟩
  refine (hbody one hone v (hI hlater hnames h)).mono (fun _ _ _ => id)
    fun _ v' ⟨hlater', hnames', hleft⟩ => ?_
  refine ⟨hlater.trans hlater', hnames'.trans hnames, fun other hother => ?_⟩
  rcases List.mem_append.mp hother with hother | hother
  · exact hQ hlater' hnames' (hbehind other hother)
  · rwa [List.mem_singleton.mp hother]

/-- A call that starts nothing. -/
theorem quiet_of_beside {β : Type} {op : ServedOp B β} {b : β} (h : beside () op w b w')
    (hstarts : op.starts b = []) :
    w.Later w' ∧ w'.names = w.names := by
  obtain ⟨hlater, hnames, -⟩ := later_of_beside h
  rw [hstarts, List.append_nil] at hnames
  exact ⟨hlater, hnames⟩

/-- Where those started are ended, none is left. -/
theorem Begun.guarded_ended (h : Begun behind started w)
    (hstaged : Staged cluster stored others w) :
    (started.forM (Started.ended (B := B))).Guarded beside ()
    (fun _ _ => Staged cluster stored others)
      (fun _ w' => w'.Over) w := by
  refine (guarded_each (Staged cluster stored others) World.Gone
    (fun hlater hnames h => h.kept hlater hnames) World.Later.gone started (fun one _ v hv => ?_)
      hstaged).mono (fun _ _ _ => id) fun _ w' ⟨_, hnames, hgone⟩ c hc => .inl ?_
  · apply Prog.guarded_perform_bind hv
    intro _ v' hkill
    obtain ⟨hlater, hnames⟩ := quiet_of_beside hkill rfl
    apply Prog.guarded_perform (hv.kept hlater hnames)
    intro _ v'' hwait
    obtain ⟨hlater', hnames'⟩ := quiet_of_beside hwait rfl
    obtain ⟨u, _, hgone, rfl⟩ := hwait
    exact ⟨hlater.trans hlater', hnames'.trans hnames, hgone⟩
  · obtain ⟨one, hone, hc'⟩ := h.found hnames hc
    exact hgone one hone c hc'

/-- Where the inputs of those started are ended, none is left with its own open. -/
theorem Begun.guarded_closed (h : Begun behind started w)
    (hstaged : Staged cluster stored others w) :
    (started.forM fun one => Prog.perform (ServedOp.closeInput (B := B) one.child)).Guarded beside
      ()
      (fun _ _ => Staged cluster stored others) (fun _ w' => w'.Over) w := by
  refine (guarded_each (Staged cluster stored others) World.Closed
    (fun hlater hnames h => h.kept hlater hnames) World.Later.closed started (fun one _ v hv => ?_)
      hstaged).mono (fun _ _ _ => id) fun _ w' ⟨_, hnames, hclosed⟩ c hc => .inr ?_
  · apply Prog.guarded_perform hv
    intro _ v' hclose
    obtain ⟨hlater, hnames⟩ := quiet_of_beside hclose rfl
    obtain ⟨u, _, rfl⟩ := hclose
    exact ⟨hlater, hnames, World.closed_change u one.child⟩
  · obtain ⟨one, hone, hc'⟩ := h.found hnames hc
    exact hclosed one hone c hc'

/-- The nodes of a group waited for, behind those started before: each by its name, and its
process. -/
def waitingFor (before behind : List Declared) : List (Text × Nat) :=
  behind.mapIdx fun i node => (node.1, before.length + i)

/-- One node started, where those that keep Storage are not all started yet or accept work. -/
theorem Begun.guarded_spawnOne {waiting : List (Text × Nat)} {node : Declared}
    (h : Begun (before ++ behind) started w) (hwaiting : waiting = waitingFor before behind)
    (hpart : before ++ behind ++ [node] <+: stored ++ others)
    (hroom : (before ++ behind ++ [node]).length ≤ stored.length ∨
      ∀ i < stored.length, w.Accepts cluster i) :
    (spawnOne (B := B) cluster text (started, waiting) node).Guarded beside ()
      (fun _ _ => Staged cluster stored others)
      (Prog.Halts (fun state w' => Begun (before ++ (behind ++ [node])) state.1 w' ∧
        state.2 = waitingFor before (behind ++ [node]) ∧ w.Later w') World.Over) w := by
  have hbehind : before ++ behind <+: stored ++ others := (List.prefix_append _ _).trans hpart
  -- As long as it is not started yet, the order is kept.
  have hstaged {v : World} (hv : Begun (before ++ behind) started v) (hlater : w.Later v) :
    Staged cluster stored others v := by
    refine hv.staged hbehind (hroom.imp (fun hle => ?_) fun haccepts i hi =>
      hlater.accepts (haccepts i hi))
    rw [List.length_append] at hle
    exact (Nat.le_add_right _ _).trans hle
  unfold spawnOne
  refine Prog.Guarded.bind (M := fun spawning v => match spawning with
    | .ok child =>
      child = (before ++ behind).length ∧
        Begun (before ++ (behind ++ [node])) (started ++ [⟨storing node, child⟩]) v ∧
        w.Later v
    | .error _ => Begun (before ++ behind) started v ∧ w.Later v) ?_ fun spawning v hspawning => ?_
  · apply Prog.guarded_perform_bind (hstaged h (.refl w))
    intro configured v hconfigured
    have hv := h.kept hconfigured rfl rfl
    have hlater := (later_of_beside hconfigured).1
    cases configured with
    | error problem => exact ⟨hv, hlater⟩
    | ok configuration =>
      apply Prog.guarded_perform (hstaged hv hlater)
      intro spawned v' hspawned
      have hlater' := hlater.trans (later_of_beside hspawned).1
      cases spawned with
      | error problem => exact ⟨hv.kept hspawned rfl rfl, hlater'⟩
      | ok child =>
        obtain ⟨-, hnames, hheld⟩ := later_of_beside hspawned
        obtain ⟨u, hmoves, rfl, -⟩ := hspawned
        have hplace : u.children.length = (before ++ behind).length := by
          rw [← u.length_names, hmoves.later.2.1, v.length_names, hv.length]
        refine ⟨hplace, ⟨?_, ?_, hheld rfl hv.held⟩, hlater'⟩
        · rw [hnames, hv.names, ← List.append_assoc, ServedOp.starts]
          simp
        · rw [hplace, ← List.append_assoc, List.mapIdx_concat, hv.started]
  · cases spawning with
    | error problem =>
      exact (hspawning.1.guarded_ended (hstaged hspawning.1 hspawning.2)).bind fun _ v' hover =>
        hover
    | ok child =>
      obtain ⟨rfl, hbegun, hlater⟩ := hspawning
      refine ⟨hbegun, ?_, hlater⟩
      rw [hwaiting, waitingFor, waitingFor, List.mapIdx_concat, List.length_append]

/-- A node that accepts work said so. -/
theorem accepts_of_accepting {scope : Text} {lines heard : List Text}
    (h : accepting scope lines heard = .ok ()) :
    ∃ line ∈ lines, accepts scope line = true := by
  induction lines generalizing heard with
  | nil => cases h
  | cons line lines ih =>
    unfold accepting at h
    split at h
    · next hspoken => exact ⟨line, List.mem_cons_self, hspoken⟩
    · obtain ⟨other, hother, hspoken⟩ := ih h
      exact ⟨other, List.mem_cons_of_mem line hother, hspoken⟩

/-- One node waited for: it said it accepts work, or those started are ended. -/
theorem Begun.guarded_acceptOne {child : Nat} {node : Declared} (h : Begun behind started w)
    (hnode : behind[child]? = some node) (hstaged : Staged cluster stored others w) :
    (acceptOne (B := B) cluster started () (node.1, child)).Guarded beside ()
    (fun _ _ => Staged cluster stored others)
      (Prog.Halts (fun _ w' => Begun behind started w' ∧ w.Later w' ∧ w'.Accepts cluster child)
        World.Over) w := by
  apply Prog.guarded_perform_bind hstaged
  intro lines v hheard
  have hv := h.kept hheard rfl rfl
  obtain ⟨hlater, hnames, -⟩ := later_of_beside hheard
  have hstaged' := hstaged.kept hlater (hnames.trans (List.append_nil _))
  cases hspoken : accepting (nodeScope cluster node.1) lines [] with
  | error problem => exact (hv.guarded_ended hstaged').bind fun _ v' hover => hover
  | ok _ =>
    refine ⟨hv, hlater, ?_⟩
    obtain ⟨line, hline, haccepts⟩ := accepts_of_accepting hspoken
    obtain ⟨u, _, hprefix, rfl⟩ := hheard
    have hprinted := hprefix.subset hline
    -- The process that printed it is the node's own.
    cases hchild : v.children[child]? with
    | none =>
      rw [hchild] at hprinted
      cases hprinted
    | some c =>
      rw [hchild] at hprinted
      refine ⟨c, hchild, line, hprinted, ?_⟩
      have hname := congrArg (·[child]?) hv.names
      simp only [World.names, List.getElem?_map, hchild, hnode, Option.map_some,
        Option.some.injEq] at hname
      rwa [hname]

/-- A group started, where those that keep Storage are not all started before it, or accept work. -/
theorem Begun.guarded_startGroup (h : Begun before started w)
    (haccepted : ∀ i < before.length, w.Accepts cluster i)
    (hpart : before ++ group <+: stored ++ others)
    (hroom : (before ++ group).length ≤ stored.length ∨ stored.length ≤ before.length) :
    (startGroup (B := B) cluster text started group).Guarded beside ()
    (fun _ _ => Staged cluster stored others)
      (Prog.Halts (fun started w' => Begun (before ++ group) started w' ∧
        ∀ i < (before ++ group).length, w'.Accepts cluster i) World.Over) w := by
  -- Either way, those that keep Storage accept work where more is started than they are.
  have hroom' {v : World} (hv : ∀ i < before.length, v.Accepts cluster i) {behind : List Declared}
      (hbehind : before ++ behind <+: before ++ group) :
      (before ++ behind).length ≤ stored.length ∨ ∀ i < stored.length, v.Accepts cluster i :=
    hroom.imp hbehind.length_le.trans fun hle i hi => hv i (hi.trans_le hle)
  refine Prog.Guarded.bind
    (Prog.Guarded.foldUntil (fun behind (state : List Started × List (Text × Nat)) v =>
      Begun (before ++ behind) state.1 v ∧ state.2 = waitingFor before behind ∧
        ∀ i < before.length, v.Accepts cluster i)
    World.Over group ?_ (started, []) w ⟨by rwa [List.append_nil], rfl, haccepted⟩) ?_
  · rintro behind node ahead ⟨started, waiting⟩ v hgroup ⟨hbegun, hwaiting, hv⟩
    have hbehind : before ++ (behind ++ [node]) <+: before ++ group := by
      rw [List.prefix_append_right_inj, hgroup, List.append_cons behind node ahead]
      exact List.prefix_append _ _
    rw [← List.append_assoc] at hbehind
    refine (hbegun.guarded_spawnOne hwaiting (hbehind.trans hpart) ?_).mono (fun _ _ _ => id)
      fun r v' hr => ?_
    · rw [List.append_assoc] at hbehind ⊢
      exact hroom' hv hbehind
    · obtain ⟨state, refused⟩ := r
      cases refused with
      | some why => exact hr
      | none => exact ⟨hr.1, hr.2.1, fun i hi => hr.2.2.accepts (hv i hi)⟩
  · rintro ⟨⟨started, waiting⟩, refused⟩ v hr
    cases refused with
    | some why => exact hr
    | none =>
      obtain ⟨hbegun, rfl, hv⟩ := hr
      refine Prog.Guarded.bind (Prog.Guarded.foldUntil (fun (behind : List (Text × Nat)) _ v =>
          Begun (before ++ group) started v ∧
            ∀ i < before.length + behind.length, v.Accepts cluster i)
        World.Over (waitingFor before group) ?_ () v ⟨hbegun, hv⟩) ?_
      · rintro behind waiting ahead ⟨⟩ v' hwaiting ⟨hbegun', hv'⟩
        have hat := congrArg (·[behind.length]?) hwaiting
        simp only [waitingFor, List.getElem?_mapIdx, List.getElem?_append_right (Nat.le_refl _),
          Nat.sub_self, List.getElem?_cons_zero, Option.map_eq_some_iff] at hat
        obtain ⟨node, hnode, rfl⟩ := hat
        have hnode' : (before ++ group)[before.length + behind.length]? = some node := by
          rwa [List.getElem?_append_right (Nat.le_add_right _ _), Nat.add_sub_cancel_left]
        have hstaged := hbegun'.staged hpart
          (hroom' (fun i hi => hv' i (hi.trans_le (Nat.le_add_right _ _))) (List.prefix_refl _))
        refine (hbegun'.guarded_acceptOne hnode' hstaged).mono (fun _ _ _ => id) fun r w' hr => ?_
        obtain ⟨_, refused⟩ := r
        cases refused with
        | some why => exact hr
        | none =>
          obtain ⟨hbegun'', hlater, haccepts⟩ := hr
          refine ⟨hbegun'', fun i hi => ?_⟩
          rw [List.length_append, List.length_singleton, ← Nat.add_assoc] at hi
          rcases Nat.lt_succ_iff_lt_or_eq.mp hi with hi | rfl
          · exact hlater.accepts (hv' i hi)
          · exact haccepts
      · rintro ⟨_, refused⟩ v' hr
        cases refused with
        | some why => exact hr
        | none =>
          refine ⟨hr.1, fun i hi => hr.2 i ?_⟩
          rwa [waitingFor, List.length_mapIdx, ← List.length_append]

/-- How a start has ended: refused, with none left; or every node started, each of which said it
accepts work. -/
def Ended (cluster : Text) (order : List Declared) (w : World) :
    Except Text (Served B × List N) → Prop
  | .error _ => w.Over
  | .ok (served, _) =>
    w.names = order.map Prod.fst ∧ (∀ i < order.length, w.Accepts cluster i) ∧ w.Held ∧
      served.started = order.mapIdx fun i node => ⟨storing node, i⟩

/-- Nothing was started. -/
theorem over_of_names (h : w.names = []) : w.Over := by
  intro c hc
  rw [World.names, List.map_eq_nil_iff] at h
  rw [h] at hc
  cases hc

variable [Capability κ] {localNode : Text → Text → κ → Except Text N} {roster : Roster κ}
    {names : List Text}

private theorem guarded_start (roles : List Declared) (clock : Nat) :
    let declared := named roles names
    (start (B := B) localNode (.ok roles) cluster roster names).Guarded beside ()
      (fun _ _ => Staged cluster (stores declared) (rest declared))
      (fun result w => Ended cluster (stores declared ++ rest declared) w result)
        (.idle clock) := by
  intro declared
  have hidle : Begun [] [] (World.idle clock) := ⟨rfl, rfl, nofun⟩
  have hstaged {v : World} (hv : Begun [] [] v) :
    Staged cluster (stores declared) (rest declared) v :=
    hv.staged List.nil_prefix (.inl (Nat.zero_le _))
  apply Prog.guarded_perform_bind (hstaged hidle)
  intro placed v hplaced
  have hv := hidle.kept hplaced rfl rfl
  cases placed with
  | error why => exact over_of_names hv.names
  | ok placed =>
    apply Prog.guarded_perform_bind (hstaged hv)
    intro text v' htext
    have hv' := hv.kept htext rfl rfl
    cases text with
    | error why => exact over_of_names hv'.names
    | ok text =>
      refine Prog.Guarded.bind
        (Prog.Guarded.foldUntil (fun (behind : List (List Declared)) started w =>
          Begun behind.flatten started w ∧ ∀ i < behind.flatten.length, w.Accepts cluster i)
        World.Over [stores declared, rest declared] ?_ [] v' ⟨hv', nofun⟩) ?_
      · intro behind group ahead started w hgroups ⟨hbegun, haccepted⟩
        rw [List.flatten_append, List.flatten_singleton]
        -- The group is those that keep Storage, or the rest behind them.
        rcases behind with _ | ⟨first, _ | ⟨second, behind⟩⟩
        · obtain ⟨rfl, -⟩ := List.cons.inj hgroups
          exact hbegun.guarded_startGroup haccepted (List.prefix_append _ _) (.inl (Nat.le_refl _))
        · obtain ⟨rfl, hrest⟩ := List.cons.inj hgroups
          obtain ⟨rfl, -⟩ := List.cons.inj hrest
          rw [List.flatten_singleton] at hbegun haccepted ⊢
          exact hbegun.guarded_startGroup haccepted (List.prefix_refl _) (.inr (Nat.le_refl _))
        · have hlength := congrArg List.length hgroups
          simp only [List.length_cons, List.length_append, List.length_nil] at hlength
          omega
      · rintro ⟨started, refused⟩ w hr
        cases refused with
        | some why => exact hr
        | none =>
          obtain ⟨hbegun, haccepted⟩ := hr
          rw [List.flatten_cons, List.flatten_singleton] at hbegun haccepted
          dsimp only
          cases hreal : declared.mapM fun node =>
            localNode node.1 (endpoint cluster node.1) (roster.capability node.1) with
          | error why =>
            refine
              (hbegun.guarded_closed
                (hbegun.staged (List.prefix_refl _) (.inr fun i hi => haccepted i ?_))).bind
              fun _ w' hover => hover
            rw [List.length_append]
            exact hi.trans_le (Nat.le_add_right _ _)
          | ok real => exact ⟨hbegun.names, haccepted, hbegun.held, hbegun.started⟩

private theorem guarded_start_named (roles : Except Text (List Declared)) (clock : Nat) :
    (start (B := B) localNode roles cluster roster names).Guarded beside ()
      (fun _ _ => Staged cluster (stores (named (roles.toOption.getD []) names))
      (rest (named (roles.toOption.getD []) names)))
      (fun result w => Ended cluster (stores (named (roles.toOption.getD []) names) ++
        rest (named (roles.toOption.getD []) names)) w result) (.idle clock) := by
  cases roles with
  | error why => exact over_of_names rfl
  | ok roles => exact guarded_start roles clock

/-- **A start goes by stages.** Wherever a run of it has got to, what it started is a part of the
order, those that keep Storage before the others, each node once, and one of the others only where
every one of those said it accepts work. Where it has ended well, it started every node, each said
so and has its input open; where it was refused, no process it started still runs with its input
open. -/
theorem start_staged (roles : Except Text (List Declared)) {clock : Nat}
    {q : Prog (ServedOp B) (Except Text (Served B × List N))}
    (h : (start localNode roles cluster roster names).Leads beside () (.idle clock) q w) :
    let declared := named (roles.toOption.getD []) names
    match q with
    | .call _ _ => Staged cluster (stores declared) (rest declared) w
    | .pure result => Ended cluster (stores declared ++ rest declared) w result := by
  have hthere := (guarded_start_named roles clock).of_leads h
  cases q with
  | pure result => exact hthere
  | call op next => exact hthere

theorem start_staged_obliging :
    let run := startedBoth.played (obliging "c".toList) (.idle 0)
    run.1.isOk = true ∧
      Ended "c".toList (stores (named restAndStored ["a".toList, "b".toList]) ++
        rest (named restAndStored ["a".toList, "b".toList])) run.2 run.1 :=
  ⟨by decide, start_staged (.ok restAndStored)
    (Prog.runs_played (beside_obliging "c".toList) startedBoth (.idle 0)).leads⟩

/-! ### A stop -/

/-- An input was ended, by now. -/
def World.Shut (w : World) (child : Nat) : Prop :=
  ∀ c, w.children[child]? = some c → ∃ time ≤ w.clock, c.closed = some time

/-- What a stop does, where it is about to make a call. It ends the input of a node that keeps
Storage only where every other node is gone, and it kills a process only where its input was ended
and its time to drain is over, or asking after it failed. -/
def Stopping (started : List Started) : ⦃β : Type⦄ → ServedOp B β → World → Prop
  | _, .closeInput child, w => (∀ one ∈ started, one.child = child → one.stores = true) →
      ∀ other ∈ started, other.stores = false → w.Gone other.child
  | _, .kill child, w => ∀ c, w.children[child]? = some c →
      ∃ time, c.closed = some time ∧ (time + STOPPING ≤ w.clock ∨ c.vain = true)
  | _, _, _ => True

private theorem World.Later.shut {child : Nat} (h : w.Later w') (hnames : w'.names = w.names)
    (hshut : w.Shut child) : w'.Shut child := by
  intro c' hc'
  obtain ⟨c, hc, hlater⟩ := h.before hnames hc'
  obtain ⟨time, htime, hclosed⟩ := hshut c hc
  exact ⟨time, htime.trans h.clock, hlater.closed time hclosed⟩

/-- A wait ends with the process gone, or its deadline over, or where asking after it failed. -/
theorem guarded_exited {deadline child polls : Nat} (h : deadline ≤ w.clock + polls * NAP) :
    (exited (B := B) deadline child polls).Guarded beside () (Stopping started)
      (fun gone w' => w.Later w' ∧ w'.names = w.names ∧ match gone with
        | true => w'.Gone child
        | false => deadline ≤ w'.clock ∨ ∀ c, w'.children[child]? = some c → c.vain = true) w := by
  induction polls generalizing w with
  | zero =>
    rw [Nat.zero_mul, Nat.add_zero] at h
    exact ⟨.refl w, rfl, .inl h⟩
  | succ polls ih =>
    apply Prog.guarded_perform_bind trivial
    intro seen v hseen
    obtain ⟨hlater, hnames⟩ := quiet_of_beside hseen rfl
    match seen with
    | some true =>
      obtain ⟨u, _, hgone, rfl⟩ := hseen
      exact ⟨hlater, hnames, hgone⟩
    | none =>
      obtain ⟨u, _, rfl⟩ := hseen
      refine ⟨hlater, hnames, .inr fun c hc => ?_⟩
      obtain ⟨c', -, rfl⟩ := World.getElem?_change hc
      rfl
    | some false =>
      apply Prog.guarded_perform_bind trivial
      intro now v' hnow
      obtain ⟨hlater', hnames'⟩ := quiet_of_beside hnow rfl
      obtain ⟨u, _, hclock, rfl⟩ := hnow
      split
      · apply Prog.guarded_perform_bind trivial
        intro _ v'' hsleep
        obtain ⟨hlater'', hnames''⟩ := quiet_of_beside hsleep rfl
        obtain ⟨u', hmoves, rfl⟩ := hsleep
        -- A nap brings the deadline nearer by one look.
        have hnearer : deadline ≤ u'.clock + NAP + polls * NAP := by
          have hpassed := (hlater.trans hlater').clock.trans hmoves.later.1.clock
          rw [Nat.add_mul, Nat.one_mul] at h
          omega
        exact (ih hnearer).mono (fun _ _ _ => id) fun gone t ⟨hl, hn, hends⟩ =>
          ⟨(hlater.trans hlater').trans (hlater''.trans hl),
            hn.trans (hnames''.trans (hnames'.trans hnames)), hends⟩
      · next hover => exact ⟨hlater.trans hlater', hnames'.trans hnames,
          .inl (hclock ▸ Nat.not_lt.mp hover)⟩

/-- A node whose input was ended is waited for, and killed where its time is over. -/
theorem guarded_drain {one : Started} (h : w.Shut one.child) :
    (drain (B := B) one).Guarded beside () (Stopping started)
    (fun _ w' => w.Later w' ∧ w'.names = w.names ∧ w'.Gone one.child) w := by
  apply Prog.guarded_perform_bind trivial
  intro now v hnow
  obtain ⟨hlater, hnames⟩ := quiet_of_beside hnow rfl
  obtain ⟨u, _, rfl, rfl⟩ := hnow
  -- the naps of the loop make up the time to stop
  have hpolls : v.clock + STOPPING ≤ v.clock + polls * NAP := Nat.add_le_add_left (by decide) _
  refine (guarded_exited hpolls).bind fun gone v' ⟨hlater', hnames', hends⟩ => ?_
  have hl := hlater.trans hlater'
  have hn := hnames'.trans hnames
  -- gone within that time, or killed where it is over or the asking was in vain
  cases gone with
  | true => exact ⟨hl, hn, hends⟩
  | false =>
    refine Prog.guarded_perform_bind (fun c' hc' => ?_) fun _ t hkill => ?_
    · obtain ⟨c, hc, hchild⟩ := hl.before hn hc'
      obtain ⟨time, htime, hclosed⟩ := h c hc
      refine ⟨time, hchild.closed time hclosed, hends.imp (fun hover => ?_) fun hvain =>
        hvain c' hc'⟩
      calc time + STOPPING
          ≤ w.clock + STOPPING := Nat.add_le_add_right htime STOPPING
        _ ≤ v.clock + STOPPING := Nat.add_le_add_right hlater.clock STOPPING
        _ ≤ v'.clock := hover
    · obtain ⟨hlater'', hnames''⟩ := quiet_of_beside hkill rfl
      apply Prog.guarded_perform trivial
      intro _ t' hwait
      obtain ⟨hwaited, hsame⟩ := quiet_of_beside hwait rfl
      obtain ⟨u', _, hgone, rfl⟩ := hwait
      -- what was killed is waited for, and is then gone
      exact ⟨hl.trans (hlater''.trans hwaited), hsame.trans (hnames''.trans hn), hgone⟩

/-- A group is stopped, where ending their inputs is what a stop does. -/
theorem guarded_stopGroup {group : List Started} {J : World → Prop} (htimely : w.Timely)
    (hJ : ∀ {v v' : World}, v.Later v' → v'.names = v.names → J v → J v')
    (hclose : ∀ one ∈ group, ∀ v, J v → Stopping started (.closeInput (B := B) one.child) v)
      (h : J w) :
    (stopGroup (B := B) group).Guarded beside () (Stopping started)
      (fun _ w' => w.Later w' ∧ w'.names = w.names ∧ ∀ one ∈ group, w'.Gone one.child) w := by
  -- each of the group is asked first: every input is closed before any is waited for
  refine Prog.Guarded.bind (guarded_each (fun v => v.Timely ∧ J v) World.Shut
    (fun hlater hnames hv => ⟨hlater.timely hv.1, hJ hlater hnames hv.2⟩) World.Later.shut group
      (fun one hone v hv => ?_)
    ⟨htimely, h⟩) fun _ v ⟨hlater, hnames, hshut⟩ => ?_
  · apply Prog.guarded_perform (hclose one hone v hv.2)
    intro _ v' hclosed
    obtain ⟨hlater, hnames⟩ := quiet_of_beside hclosed rfl
    refine ⟨hlater, hnames, fun c hc => ?_⟩
    have htimely' := hlater.timely hv.1
    obtain ⟨u, _, rfl⟩ := hclosed
    obtain ⟨time, htime⟩ := Option.ne_none_iff_exists'.mp (World.closed_change u one.child c hc)
    exact ⟨time, htimely' c (List.mem_of_getElem? hc) time htime, htime⟩
  · -- and then each is drained
    refine (guarded_each (fun v => ∀ one ∈ group, v.Shut one.child) World.Gone
      (fun hlater hnames hv one hone => hlater.shut hnames (hv one hone)) World.Later.gone group
      (fun one hone v hv => guarded_drain (hv one hone)) hshut).mono (fun _ _ _ =>
        id) fun _ w' ⟨hlater', hnames', hgone⟩ => ?_
    exact ⟨hlater.trans hlater', hnames'.trans hnames, hgone⟩

private theorem guarded_stop {served : Served B} (hheld : w.Held) :
    served.stop.Guarded beside () (Stopping served.started)
    (fun _ w' => w'.names = w.names ∧ ∀ one ∈ served.started, w'.Gone one.child) w := by
  -- nothing is closed yet
  have htimely : w.Timely := fun c hc time htime => absurd ((hheld c hc).symm.trans htime) nofun
  let J (v : World) : Prop := ∀ other ∈ served.started, other.stores = false → v.Gone other.child
  unfold Served.stop
  rw [List.partition_eq_filter_filter]
  refine (guarded_stopGroup (J := fun _ => True) htimely (fun _ _ _ => trivial) ?_ trivial).bind
    fun _ v ⟨hlater, hnames, hgone⟩ => ?_
  · -- the others first, and of a node that keeps Storage nothing is asked here
    intro one hone v _ hstores
    obtain ⟨hmem, hnot⟩ := List.mem_filter.mp hone
    rw [Function.comp_apply, hstores one hmem rfl] at hnot
    cases hnot
  · -- those gone stay gone, which is what asking a Storage node needs
    have hrest : J v := by
      intro other hother hnot
      refine hgone other (List.mem_filter.mpr ⟨hother, ?_⟩)
      rw [Function.comp_apply, hnot]
      rfl
    have hclose : ∀ one ∈ served.started.filter Started.stores, ∀ v, J v →
        Stopping served.started (.closeInput (B := B) one.child) v := fun _ _ _ hv _ => hv
    refine (guarded_stopGroup (hlater.timely htimely)
      (fun hl hn hv other hother hnot => hl.gone hn (hv other hother hnot)) hclose hrest).bind
      fun _ v' ⟨hlater', hnames', hgone'⟩ => ⟨hnames'.trans hnames, fun one hone => ?_⟩
    -- a node of either kind is in one of the two groups
    cases hstores : one.stores with
    | true => exact hgone' one (List.mem_filter.mpr ⟨hone, hstores⟩)
    | false => exact hlater'.gone hnames' (hrest one hone hstores)

/-- **A stop drains.** Wherever a run of it has got to, it does what a stop does (`Stopping`), and
where it has ended, no process it was to stop runs. -/
theorem stop_drains {served : Served B} (hheld : w.Held) {q : Prog (ServedOp B) PUnit}
    (h : served.stop.Leads beside () w q w') :
    match q with
    | .call op _ => Stopping served.started op w'
    | .pure _ => ∀ one ∈ served.started, w'.Gone one.child := by
  have hthere := (guarded_stop hheld).of_leads h
  cases q with
  | pure result => exact hthere.2
  | call op next => exact hthere

theorem stop_drains_obliging :
    let w : World := ⟨0, [.started "b".toList, .started "a".toList]⟩
    let served : Served Unit := ⟨[⟨true, 0⟩, ⟨false, 1⟩], []⟩
    ∀ one ∈ served.started, (served.stop.played (obliging "c".toList) w).2.Gone one.child :=
  stop_drains (by simp [World.Held, Child.started])
    (Prog.runs_played (beside_obliging "c".toList) _ _).leads

/-- A start, and where it went well a stop. -/
def lived (localNode : Text → Text → κ → Except Text N) (roles : Except Text (List Declared))
    (cluster : Text) (roster : Roster κ) (names : List Text) : Prog (ServedOp B) PUnit := do
  match ← start localNode roles cluster roster names with
  | .error _ => pure ⟨⟩
  | .ok (served, _) => served.stop

/-- **None is left behind.** However a start goes, and a stop where it went well, no process it
started still runs with its input open. -/
theorem none_left (roles : Except Text (List Declared)) {clock : Nat}
    (h : (lived (B := B) localNode roles cluster roster names).Runs beside () (.idle clock) ⟨⟩ w) :
    w.Over := by
  obtain ⟨result, v, hstart, hrest⟩ := Prog.runs_bind.mp h
  have hended := (guarded_start_named roles clock).ends _ _ hstart
  cases result with
  | error why =>
    obtain ⟨-, rfl⟩ := Prog.runs_pure.mp hrest
    exact hended
  | ok found =>
    obtain ⟨hnames, -, hheld, hstarted⟩ := hended
    obtain ⟨hsame, hgone⟩ := (guarded_stop hheld).ends _ _ hrest
    have hbegun : Begun _ found.1.started v := ⟨hnames, hstarted, hheld⟩
    intro c hc
    obtain ⟨one, hone, hat⟩ := hbegun.found hsame hc
    exact .inl (hgone one hone c hat)

theorem none_left_obliging :
    ((lived (B := Unit) (fun _ _ (_ : Roles) => .ok ()) (.ok restAndStored) "c".toList ⟨[]⟩
      ["a".toList, "b".toList]).played (obliging "c".toList) (.idle 0)).2.Over :=
  none_left (.ok restAndStored) (Prog.runs_played (beside_obliging "c".toList) _ _)

end Serving

end XmipEssentials
