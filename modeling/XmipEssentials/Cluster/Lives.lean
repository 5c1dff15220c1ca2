import Mathlib.Logic.Function.Basic
import Mathlib.Logic.Relation
import XmipEssentials.Cluster.Tick

/-!
# What runs under a cluster's eyes

A node's processes, one after another, and the two files they leave for the cluster: the publication
and the beat (`Site`). Between any two calls of the cluster each node's process moves as it likes
(`Site.Move`): it publishes a round, then counts it, beats with the count — or with less, a beat
caught half-written — and exits. A process the cluster killed makes no move.

The cluster's calls act on this world (`ClusterOp.Acts`), and every read of a node is noted in it as
it was made (`Seen`). Three fields of a site note what the cluster has made of its files: the beat
it last read, whose process's count it holds, and whose it last read the publication at.
-/

namespace XmipEssentials

open Text Conc

/-- One round a process published. -/
structure Publication where
  life : Nat
  round : Nat
  text : Text
  deriving DecidableEq, Repr

/-- A node's processes, numbered from one, and its files. What stood in the files before the first
process is number zero's. -/
structure Site where
  /-- The process now running, or that ran last. -/
  life : Nat
  running : Bool
  /-- The rounds it published, and those of them it counted. -/
  done : Nat
  counted : Nat
  publications : List Publication
  file : Option Text
  /-- The last beat, and the process that left it. -/
  beatFile : Option (Nat × Text)
  /-- The beat as the cluster last read it. -/
  heard : Text
  /-- The process whose count the cluster last heard. -/
  roundsOf : Nat
  /-- The process at whose count the cluster last read the publication. -/
  readOf : Nat

variable {S : Type} (R : Reading S)

namespace Site

/-- One move of a node's process. -/
inductive Move : Site → Site → Prop where
  /-- It publishes its next round, whole. -/
  | publish (n : Site) (text : Text) (running : n.running = true) (due : n.done = n.counted)
      (reads : (R.node text).isSome) :
      Move n { n with
        done := n.done + 1, file := some text,
        publications := ⟨n.life, n.done + 1, text⟩ :: n.publications }
  /-- It counts the round it published. -/
  | count (n : Site) (running : n.running = true) : Move n { n with counted := n.done }
  /-- It beats, saying no more rounds than it counted. -/
  | beat (n : Site) (text : Text) (running : n.running = true)
      (honest : ∀ b, R.beat text = some b → b.rounds ≤ n.counted) :
      Move n { n with beatFile := some (n.life, text) }
  | exit (n : Site) : Move n { n with running := false }

abbrev Moves : Site → Site → Prop := Relation.ReflTransGen (Move R)

/-- No process of the node has run yet. -/
structure Unstarted (n : Site) : Prop where
  life : n.life = 0
  running : n.running = false
  done : n.done = 0
  counted : n.counted = 0
  publications : n.publications = []
  beatFile : ∀ life text, n.beatFile = some (life, text) → life = 0
  heard : n.heard = []
  roundsOf : n.roundsOf = 0
  readOf : n.readOf = 0

/-- A process is started. -/
def started (n : Site) : Site :=
  { n with life := n.life + 1, running := true, done := 0, counted := 0 }

def killed (n : Site) : Site := { n with running := false }

/-- The beat was read. -/
def beatRead (n : Site) : Site :=
  match n.beatFile with
  | none => n
  | some (life, text) =>
    if text = n.heard then n
    else { n with heard := text, roundsOf := if (R.beat text).isSome then life else n.roundsOf }

/-- The publication was read. -/
def fileRead (n : Site) : Site :=
  match n.file with
  | none => n
  | some text => if (R.node text).isSome then { n with readOf := n.roundsOf } else n

end Site

/-- A read of a node: the node and its files as they then stood, what the cluster held of it after
its beat was heard, and what it held in the end. -/
structure Seen (S : Type) where
  site : Site
  listened : Member S
  after : Member S

/-- Every node, and every read of one. -/
structure World (S : Type) where
  sites : Text → Site
  reads : List (Seen S)

/-- Nothing was started, and nothing read. -/
structure World.Unstarted (w : World S) : Prop where
  sites : ∀ name, (w.sites name).Unstarted
  reads : w.reads = []

/-- One node of the world changed. -/
def World.at (w : World S) (name : Text) (change : Site → Site) : World S :=
  { w with sites := Function.update w.sites name (change (w.sites name)) }

/-- Every node's process has moved, or not. -/
def World.Passes (R : Reading S) (w w' : World S) : Prop :=
  w'.reads = w.reads ∧ ∀ name, Site.Moves R (w.sites name) (w'.sites name)

/-- What a call of the cluster does: files are read as they stand, a process is waited for, killed
or started. -/
def ClusterOp.Acts (R : Reading S) : {β : Type} → ClusterOp S β → World S → β → World S → Prop
  | _, .beatText name, w, b, w' =>
    b = (w.sites name).beatFile.map Prod.snd ∧ w' = w.at name (Site.beatRead R)
  | _, .publication name, w, b, w' => b = (w.sites name).file ∧ w' = w.at name (Site.fileRead R)
  | _, .instant, w, _, w' => w' = w
  | _, .now, w, _, w' => w' = w
  | _, .tryWait name, w, b, w' => (b.isSome → (w.sites name).running = false) ∧ w' = w
  | _, .kill name, w, _, w' => w' = w.at name Site.killed
  | _, .start name, w, b, w' => w' = if b then w.at name Site.started else w
  | _, .sleep, w, _, w' => w' = w
  | _, .read listened after, w, _, w' =>
    w' = { w with reads := ⟨w.sites listened.name, listened, after⟩ :: w.reads }

/-- What a call of the cluster may do: first the nodes move, and then it acts. -/
def machine : Exec Unit (ClusterOp S) (World S) :=
  fun _ _ op w b w' => ∃ u, World.Passes R w u ∧ ClusterOp.Acts R op u b w'

namespace Seen

variable {R}

/-- The read heard a beat of the process now running, saying that it finished some rounds. -/
def Hears (e : Seen S) : Prop := e.site.roundsOf = e.site.life ∧ 1 ≤ e.listened.rounds

/-- The count heard is the one the publication was last read at, left from an earlier process. -/
def LeftOver (e : Seen S) : Prop :=
  e.listened.readAt = some e.listened.rounds ∧ e.site.readOf ≠ e.site.life

variable (R)

/-- The snapshot held is one the process now running published in the round heard, or later. -/
def Own (e : Seen S) : Prop :=
  ∃ p ∈ e.site.publications, p.life = e.site.life ∧ e.listened.rounds ≤ p.round ∧
    (R.node p.text).map Prod.fst = some e.after.published

end Seen

end XmipEssentials
