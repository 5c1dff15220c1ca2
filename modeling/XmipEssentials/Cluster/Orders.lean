import XmipEssentials.Roster

/-!
# What a cluster starts its nodes on

Who the nodes are and what each declared, which of them may assume the internet, and the scenarios
they are told to run. What cannot be carried out is refused before a process is spawned
(`Orders.refusal`): no node, a name no file can carry, an online node that is no node of the
cluster, or a path no roster covers. No two nodes need differ in name, and no name is reserved.
-/

namespace XmipEssentials

open Text

/-- The scenario the relays drive. -/
def roundTrip : Text := "round-trip".toList

/-- Whether the chosen list drives a scenario: every one when nothing was chosen. -/
def drives (chosen : List Text) (scenario : Text) : Bool :=
  chosen.isEmpty || chosen.any (· == scenario)

/-- The orders a cluster spawns its nodes under. -/
structure Orders (κ : Type) where
  roster : Roster κ
  /-- The nodes that may assume the internet, where they were named outright. -/
  online : Option (List Text)
  /-- The scenarios every node is told to run; none is every one. -/
  scenarios : List Text

namespace Orders

variable {κ : Type} [Capability κ]

/-- Every node's name, in the order they were named. -/
def names (o : Orders κ) : List Text := o.roster.names

/-- Whether the node called `name` may assume the internet; `environment` says of a node what its
environment does. -/
def isOnline (environment : Text → Bool) (o : Orders κ) (name : Text) : Bool :=
  match o.online with
  | none => environment name
  | some named => named.any fun one => eqIgnoreAsciiCase one name

/-- The whole capability the node called `name` is started with. -/
def capability (environment : Text → Bool) (o : Orders κ) (name : Text) : κ :=
  Capability.withOnline (o.isOnline environment name) (o.roster.capability name)

/-- Why these orders cannot be carried out, if they cannot. -/
def refusal (o : Orders κ) : Option Text :=
  if o.roster.isEmpty then
    some ("REFUSED: a cluster supervises nodes and none was named; ".toList ++
      "--nodes <node>=receiving,<node>=processing,<node>=sending names them.".toList)
  else
    match o.names.findSome? Image.refusal with
    | some refusal => some refusal
    | none =>
      let strangers := (o.online.getD []).filter fun one =>
        !o.names.any fun name => eqIgnoreAsciiCase name one
      if strangers ≠ [] then
        some ("REFUSED: --online names ".toList ++ ", ".toList.intercalate strangers ++
          ", which --nodes does not; the nodes are ".toList ++ ", ".toList.intercalate o.names ++
          ['.'])
      else if drives o.scenarios roundTrip then o.roster.refusal
      else none

/-- Orders that are not refused name nodes, each by a name its file and its process can carry. -/
theorem refusal_eq_none {o : Orders κ} (h : o.refusal = none) :
    o.names ≠ [] ∧ ∀ name ∈ o.names, Image.refusal name = none := by
  unfold refusal at h
  split at h
  · cases h
  · next hempty =>
    split at h
    · cases h
    · next hnames =>
      refine ⟨fun hnil => hempty ?_, fun name hname => List.findSome?_eq_none_iff.mp hnames name
        hname⟩
      unfold Roster.isEmpty
      rw [List.isEmpty_iff]
      exact List.map_eq_nil_iff.mp hnil

end Orders

end XmipEssentials
