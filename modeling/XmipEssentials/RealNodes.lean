import XmipEssentials.Lib.Transcript
import XmipEssentials.Served

/-!
# Real, started or simulated

A run sorts the nodes of its cluster. A name the operator typed is looked up; where it resolves,
what answers there has to say that it is the node of that name in that cluster, and what it can do,
or the run is refused. Where none is real, the run may start its nodes as processes of the service.
Every other node is simulated, which is all the cluster process spawns.

`sorted_told` says what a lookup that is not refused comes to: of each name typed, whether it
resolved, at the port the cluster's file says, and what it then declared itself; the roster with
what the real nodes declared; and the simulated nodes, which are the others.
-/

namespace XmipEssentials

open Text Conc

variable {κ : Type}

/-! ### A roster and its nodes -/

namespace Roster

/-- The same roster without the nodes named in `real`. -/
def without (r : Roster κ) (real : List Text) : Roster κ :=
  ⟨r.nodes.filter fun node => !real.any fun one => eqIgnoreAsciiCase one node.1⟩

/-- A declaration spliced in is what the roster has of every spelling of the name, and of no other
name. -/
theorem capability_declared [Capability κ] (r : Roster κ) (one name : Text) (own : κ) :
    (r.declared one own).capability name =
      if eqIgnoreAsciiCase one name then own else r.capability name := by
  obtain ⟨nodes⟩ := r
  simp only [declared, capability]
  induction nodes with
  -- nobody by the name: it is added at the end
  | nil =>
    rw [declareIn, List.find?_singleton]
    split_ifs <;> rfl
  | cons node rest ih =>
    rw [declareIn]
    by_cases hnode : eqIgnoreAsciiCase node.1 one = true
    · -- The node has the name in some spelling, so both ask it alike.
      have hsame : eqIgnoreAsciiCase node.1 name = eqIgnoreAsciiCase one name := by
        rw [Bool.eq_iff_iff, eqIgnoreAsciiCase_iff, eqIgnoreAsciiCase_iff,
          eqIgnoreAsciiCase_iff.mp hnode]
      rw [if_pos hnode, List.find?_cons, List.find?_cons, hsame]
      cases eqIgnoreAsciiCase one name <;> rfl
    · -- another node's: what is asked for is not it, or the one declared has another name
      rw [if_neg hnode, List.find?_cons, List.find?_cons]
      cases hname : eqIgnoreAsciiCase node.1 name with
      | false => exact ih
      | true =>
        -- one name in some spelling would be the other's too
        have hne : eqIgnoreAsciiCase one name = false := by
          rw [Bool.eq_false_iff]
          intro hone
          exact hnode (eqIgnoreAsciiCase_iff.mpr
            ((eqIgnoreAsciiCase_iff.mp hname).trans (eqIgnoreAsciiCase_iff.mp hone).symm))
        rw [hne]
        rfl

/-- Every node keeps its place and its name, and a name that is none of theirs comes last. -/
theorem exists_declared (r : Roster κ) (one name : Text) (own : κ) :
    (∃ node ∈ (r.declared one own).nodes, eqIgnoreAsciiCase node.1 name = true) ↔
      eqIgnoreAsciiCase one name = true ∨
        ∃ node ∈ r.nodes, eqIgnoreAsciiCase node.1 name = true := by
  obtain ⟨nodes⟩ := r
  simp only [declared]
  induction nodes with
  | nil => simp [declareIn]
  | cons node rest ih =>
    rw [declareIn]
    by_cases hnode : eqIgnoreAsciiCase node.1 one = true
    · have hsame : eqIgnoreAsciiCase node.1 name = eqIgnoreAsciiCase one name := by
        rw [Bool.eq_iff_iff, eqIgnoreAsciiCase_iff, eqIgnoreAsciiCase_iff,
          eqIgnoreAsciiCase_iff.mp hnode]
      rw [if_pos hnode, List.exists_mem_cons_iff, List.exists_mem_cons_iff, hsame,
        or_self_left]
    · rw [if_neg hnode, List.exists_mem_cons_iff, List.exists_mem_cons_iff, ih, or_left_comm]

private theorem mem_without {r : Roster κ} {real : List Text} {node : Text × κ} :
    node ∈ (r.without real).nodes ↔
      node ∈ r.nodes ∧ ∀ one ∈ real, eqIgnoreAsciiCase one node.1 = false := by
  rw [without, List.mem_filter, Bool.not_eq_true', List.any_eq_false]
  simp only [Bool.not_eq_true]

end Roster

namespace Real

/-! ### Looking for a node -/

/-- What a node publishes, as the rig reads it of one it looks for: which node it says it is, and of
each record its scope and what it says. -/
structure Published where
  node : Text
  records : List (Text × Text)

/-- The cluster's own configuration, as its reader has it. -/
structure Configuration where
  /-- The nodes it declares. -/
  nodes : Except Text (List Text)
  /-- Where it has a node of a cluster operated, where it has. -/
  listen : Text → Text → Except Text (Option Text)

/-- How certificates and publications are read. -/
structure Reading (I κ : Type) where
  /-- An identity, of a chain, its key and its anchors. -/
  identity : List UInt8 → List UInt8 → List UInt8 → Except Text I
  published : Text → Except Text Published
  /-- The scope of the record that says what a node can do. -/
  capabilityScope : Text → Text
  /-- What such a record says, where it is one. -/
  capability : Text → Text → Option (Except Text κ)

/-- A call a roll makes to find the real nodes, by what it answers. -/
inductive RealOp (R I : Type) : Type → Type where
  /-- Whether the machine's resolver knows the address. -/
  | resolves (address : Text) : RealOp R I Bool
  | file (folder leaf : Text) : RealOp R I (Except Text (List UInt8))
  | opened (address : Text) (identity : I) : RealOp R I (Except Text R)
  | publication (remote : R) : RealOp R I (Except Text Text)

/-- A node as it answered. -/
structure RealNode (R κ : Type) where
  name : Text
  address : Text
  capability : κ
  remote : R

/-- The port the cluster's file says a node is operated on: the first node's, where it is none of
them or none is named. -/
def operatePort (C : Configuration) (cluster : Text) (node : Option Text) : Except Text Text := do
  let declared ← C.nodes
  match (node.filter (· ∈ declared)).or declared.head? with
  | none => .error "REFUSED: the Essentials' cluster.xmip declares no node".toList
  | some asked =>
    match ← C.listen asked cluster with
    | none =>
      .error ("REFUSED: the Essentials' cluster.xmip operates ".toList ++ asked ++
        " nowhere".toList)
    | some listen =>
      match rsplitOnce ':' listen with
      | none => .error ("REFUSED: [operate] listen ".toList ++ listen ++ " names no port".toList)
      | some (_, port) => .ok port

/-- Why what answers at an address is not the node of the name. -/
def refused (name address what : Text) : Text :=
  "REFUSED: ".toList ++ name ++ " resolves, at ".toList ++ address ++ ", and ".toList ++ what

variable {R I : Type} (rd : Reading I κ) (C : Configuration)

/-- A name at a port, where the resolver knows it. -/
def resolving (name port : Text) : Prog (RealOp R I) (Option Text) := do
  let address := name ++ ':' :: port
  if ← Prog.perform (.resolves address) then pure (some address) else pure none

/-- The operator's certificate, of the folder it lies in. -/
def certificate (folder : Text) : Prog (RealOp R I) (Except Text I) := do
  match ← Prog.perform (.file folder "operator.pem".toList) with
  | .error why => pure (.error ("REFUSED: ".toList ++ why))
  | .ok pem =>
    match ← Prog.perform (.file folder "operator.key".toList) with
    | .error why => pure (.error ("REFUSED: ".toList ++ why))
    | .ok key =>
      match ← Prog.perform (.file folder "anchors.pem".toList) with
      | .error why => pure (.error ("REFUSED: ".toList ++ why))
      | .ok anchors =>
        match rd.identity pem key anchors with
        | .error why =>
          pure (.error ("REFUSED: the certificate in ".toList ++ folder ++ ": ".toList ++ why))
        | .ok identity => pure (.ok identity)

/-- What listens at the address, opened with the operator's certificate, which a name that resolves
needs to be asked. -/
def answering (name address : Text) (folder : Option Text) : Prog (RealOp R I) (Except Text R) := do
  match folder with
  | none =>
    pure
      (.error
        (refused name address
          ("the run holds no operator certificate to ask it whether it is an Xmip node; ".toList ++
      "name the folder of one with -Certificate".toList)))
  | some folder =>
    match ← certificate rd folder with
    | .error why => pure (.error why)
    | .ok identity =>
      match ← Prog.perform (.opened address identity) with
      | .error why =>
        pure
          (.error ("REFUSED: ".toList ++ name ++ " resolves, at ".toList ++ address ++
            ": ".toList ++ why))
      | .ok remote => pure (.ok remote)

/-- What the node at the address publishes, or why it does not. -/
def publication (name address : Text) (remote : R) : Prog (RealOp R I) (Except Text Published) := do
  match ← Prog.perform (.publication remote) with
  | .error problem => pure (.error (refused name address ("does not answer: ".toList ++ problem)))
  | .ok text =>
    match rd.published text with
    | .error problem =>
      pure (.error (refused name address ("answers with no Xmip publication: ".toList ++ problem)))
    | .ok published => pure (.ok published)

/-- What a publication declares: itself the node of the name in the cluster, and what it can do; or
why it does not. -/
def declares (cluster name address : Text) (published : Published) : Except Text κ :=
  let scope := Serving.nodeScope cluster name
  if published.node ≠ scope then
    .error
      (refused name address ("answers as ".toList ++ published.node ++ ", not as ".toList ++ scope))
  else
    match (published.records.find? fun one => one.1 = rd.capabilityScope scope).bind fun one =>
      rd.capability one.1 one.2 with
    | none => .error (refused name address "says nothing of what it can do".toList)
    | some (.error why) => .error (refused name address why)
    | some (.ok capability) => .ok capability

/-- What the node at the address declares. -/
def declared (cluster name address : Text) (remote : R) : Prog (RealOp R I) (Except Text κ) := do
  match ← publication rd name address remote with
  | .error why => pure (.error why)
  | .ok published => pure (declares rd cluster name address published)

/-- The cluster's own name, asked where it resolves: why the run is refused, where it is. -/
def clusterAsked (cluster port : Text) (folder : Option Text) :
    Prog (RealOp R I) (Except Text Unit) := do
  match ← resolving cluster port with
  | none => pure (.ok ())
  | some address =>
    match ← answering rd cluster address folder with
    | .error why => pure (.error why)
    | .ok remote =>
      match ← publication rd cluster address remote with
      | .error why => pure (.error why)
      | .ok published =>
        if "xmip:///".toList ++ cluster ++ "/node/".toList <+: published.node then pure (.ok ())
        else
          pure (.error ("REFUSED: the cluster name ".toList ++ cluster ++
            " resolves, at ".toList ++ address ++ ", and answers as ".toList ++ published.node ++
            ", no node of cluster ".toList ++ cluster))

/-- One name typed, looked for at its port: the real node it is, where it resolves. -/
def lookedFor (cluster : Text) (folder : Option Text) (name port : Text) :
    Prog (RealOp R I) (Except Text (Option (RealNode R κ))) := do
  match ← resolving name port with
  | none => pure (.ok none)
  | some address =>
    match ← answering rd name address folder with
    | .error why => pure (.error why)
    | .ok remote =>
      match ← declared rd cluster name address remote with
      | .error why => pure (.error why)
      | .ok capability => pure (.ok (some ⟨name, address, capability, remote⟩))

/-- Each name typed, in turn. -/
def foundEach (cluster : Text) (folder : Option Text) :
    List Text → List (RealNode R κ) → Prog (RealOp R I) (Except Text (List (RealNode R κ)))
  | [], real => pure (.ok real)
  | name :: typed, real => do
    match operatePort C cluster (some name) with
    | .error why => pure (.error why)
    | .ok port =>
      match ← lookedFor rd cluster folder name port with
      | .error why => pure (.error why)
      | .ok none => foundEach cluster folder typed real
      | .ok (some node) => foundEach cluster folder typed (real ++ [node])

/-- The nodes among those typed that are real. The cluster's own name is asked too where it
resolves. -/
def found (cluster : Text) (typed : List Text) (folder : Option Text) :
    Prog (RealOp R I) (Except Text (List (RealNode R κ))) := do
  match operatePort C cluster none with
  | .error why => pure (.error why)
  | .ok port =>
    match ← clusterAsked rd cluster port folder with
    | .error why => pure (.error why)
    | .ok () => foundEach rd C cluster folder typed []

/-- A run's nodes, sorted: the real ones, their names, the roster with each one's roles as it
declared them, and the simulated nodes alone. -/
structure Sorted (R κ : Type) where
  real : List (RealNode R κ)
  names : List Text
  roster : Roster κ
  simulated : Roster κ

/-- The nodes of a roster sorted by the names typed. -/
def sorted (cluster : Text) (typed : List Text) (folder : Option Text) (roster : Roster κ) :
    Prog (RealOp R I) (Except Text (Sorted R κ)) := do
  match ← found rd C cluster typed folder with
  | .error why => pure (.error why)
  | .ok real =>
    let names := real.map RealNode.name
    let roster := real.foldl (fun roster node => roster.declared node.name node.capability) roster
    pure (.ok ⟨real, names, roster, roster.without names⟩)

/-! ### What the lookup calls, and comes to -/

variable {rd C} {cluster name port address : Text} {folder : Option Text} {remote : R}
  {capability : κ} {calls : List (Answered (RealOp R I))}

/-- The calls that open what listens at an address: the run's certificate is read, and the address
opened with it. -/
inductive Opened (rd : Reading I κ) (address : Text) (remote : R) :
    Option Text → List (Answered (RealOp R I)) → Prop
  | opened {folder : Text} {pem key anchors : List UInt8} {identity : I}
      (reads : rd.identity pem key anchors = .ok identity) :
      Opened rd address remote (some folder)
        [⟨.file folder "operator.pem".toList, .ok pem⟩,
          ⟨.file folder "operator.key".toList, .ok key⟩,
          ⟨.file folder "anchors.pem".toList, .ok anchors⟩,
          ⟨.opened address identity, .ok remote⟩]

/-- A publication says of itself that it is the node of the name in the cluster, and what that node
can do. -/
structure Declares (rd : Reading I κ) (cluster name : Text) (published : Published)
    (capability : κ) : Prop where
  node : published.node = Serving.nodeScope cluster name
  record : ∃ one, (published.records.find? fun one =>
      one.1 = rd.capabilityScope (Serving.nodeScope cluster name)) = some one ∧
    rd.capability one.1 one.2 = some (.ok capability)

/-- The calls that ask the cluster's own name: the resolver does not know it, or it answers as a
node of the cluster. -/
inductive ClusterAsked (rd : Reading I κ) (cluster port : Text) (folder : Option Text) :
    List (Answered (RealOp R I)) → Prop
  | unknown : ClusterAsked rd cluster port folder [⟨.resolves (cluster ++ ':' :: port), false⟩]
  | node {remote : R} {opening : List (Answered (RealOp R I))} {text : Text}
      {published : Published}
      (opened : Opened rd (cluster ++ ':' :: port) remote folder opening)
      (reads : rd.published text = .ok published)
      (answers : "xmip:///".toList ++ cluster ++ "/node/".toList <+: published.node) :
      ClusterAsked rd cluster port folder
        (⟨.resolves (cluster ++ ':' :: port), true⟩ ::
          (opening ++ [⟨.publication remote, .ok text⟩]))

/-- The calls that look for a name at a port, and what it is: no real node where the resolver does
not know it, and then nothing else is asked; the real node it declares itself, where it does. -/
inductive LookedFor (rd : Reading I κ) (cluster : Text) (folder : Option Text)
    (name port : Text) : Option (RealNode R κ) → List (Answered (RealOp R I)) → Prop
  | unknown : LookedFor rd cluster folder name port none
      [⟨.resolves (name ++ ':' :: port), false⟩]
  | real {remote : R} {opening : List (Answered (RealOp R I))} {text : Text}
      {published : Published} {capability : κ}
      (opened : Opened rd (name ++ ':' :: port) remote folder opening)
      (reads : rd.published text = .ok published)
      (declares : Declares rd cluster name published capability) :
      LookedFor rd cluster folder name port (some ⟨name, name ++ ':' :: port, capability, remote⟩)
        (⟨.resolves (name ++ ':' :: port), true⟩ ::
          (opening ++ [⟨.publication remote, .ok text⟩]))

private theorem told_resolving {known : Option Text} :
    (resolving name port).Told calls known ↔
      known = none ∧ calls = [⟨.resolves (name ++ ':' :: port), false⟩] ∨
      known = some (name ++ ':' :: port) ∧
        calls = [⟨.resolves (name ++ ':' :: port), true⟩] := by
  unfold resolving
  refine Prog.told_perform_bind.trans ⟨?_, ?_⟩
  · rintro ⟨⟨⟩, rest, rfl, h⟩
    · obtain ⟨rfl, rfl⟩ := Prog.told_pure.mp h
      exact .inl ⟨rfl, rfl⟩
    · obtain ⟨rfl, rfl⟩ := Prog.told_pure.mp h
      exact .inr ⟨rfl, rfl⟩
  · rintro (⟨rfl, rfl⟩ | ⟨rfl, rfl⟩)
    · exact ⟨false, [], rfl, .pure⟩
    · exact ⟨true, [], rfl, .pure⟩

/-- A certificate is read from its three files. -/
theorem told_certificate {folder : Text} {identity : I} :
    (certificate rd folder : Prog (RealOp R I) (Except Text I)).Told calls (.ok identity) ↔
      ∃ pem key anchors, rd.identity pem key anchors = .ok identity ∧
        calls = [⟨.file folder "operator.pem".toList, .ok pem⟩,
          ⟨.file folder "operator.key".toList, .ok key⟩,
          ⟨.file folder "anchors.pem".toList, .ok anchors⟩] := by
  unfold certificate
  constructor
  · intro h
    -- Each file is read in turn, and one that is not there refuses the run.
    obtain ⟨pem, rest, rfl, hpem⟩ := Prog.told_perform_bind.mp h
    cases pem with
    | error why => exact nomatch (Prog.told_pure.mp hpem).2
    | ok pem =>
      obtain ⟨key, rest, rfl, hkey⟩ := Prog.told_perform_bind.mp hpem
      cases key with
      | error why => exact nomatch (Prog.told_pure.mp hkey).2
      | ok key =>
        obtain ⟨anchors, rest, rfl, hanchors⟩ := Prog.told_perform_bind.mp hkey
        cases anchors with
        | error why => exact nomatch (Prog.told_pure.mp hanchors).2
        | ok anchors =>
          cases hreads : rd.identity pem key anchors with
          | error why =>
            simp only [hreads] at hanchors
            exact nomatch (Prog.told_pure.mp hanchors).2
          | ok made =>
            simp only [hreads] at hanchors
            obtain ⟨rfl, heq⟩ := Prog.told_pure.mp hanchors
            obtain rfl := Except.ok.inj heq
            exact ⟨pem, key, anchors, hreads, rfl⟩
  · rintro ⟨pem, key, anchors, hreads, rfl⟩
    refine Prog.told_perform_bind.mpr ⟨.ok pem, _, rfl, Prog.told_perform_bind.mpr
      ⟨.ok key, _, rfl, Prog.told_perform_bind.mpr ⟨.ok anchors, [], rfl, ?_⟩⟩⟩
    simp only [hreads]
    exact .pure

/-- What listens is opened with the run's certificate, where it has one. -/
theorem told_answering :
    (answering rd name address folder : Prog (RealOp R I) (Except Text R)).Told calls
      (.ok remote) ↔ Opened rd address remote folder calls := by
  unfold answering
  cases folder with
  -- without a certificate nothing answers
  | none => exact iff_of_false (fun h => nomatch (Prog.told_pure.mp h).2) nofun
  | some folder =>
    constructor
    · intro h
      -- the certificate is read, and what listens is opened with it
      obtain ⟨read, first, rest, hcertificate, hread, rfl⟩ := Prog.told_bind.mp h
      cases read with
      | error why => exact nomatch (Prog.told_pure.mp hread).2
      | ok identity =>
        obtain ⟨pem, key, anchors, hreads, rfl⟩ := told_certificate.mp hcertificate
        obtain ⟨opened, rest, rfl, hopened⟩ := Prog.told_perform_bind.mp hread
        cases opened with
        | error why => exact nomatch (Prog.told_pure.mp hopened).2
        | ok made =>
          obtain ⟨rfl, heq⟩ := Prog.told_pure.mp hopened
          obtain rfl := Except.ok.inj heq
          exact .opened hreads
    · rintro ⟨hreads⟩
      exact Prog.told_bind.mpr ⟨_, _, _, told_certificate.mpr ⟨_, _, _, hreads, rfl⟩,
        Prog.told_perform_bind.mpr ⟨.ok remote, [], rfl, .pure⟩, rfl⟩

private theorem told_publication {published : Published} :
    (publication rd name address remote : Prog (RealOp R I) (Except Text Published)).Told calls
      (.ok published) ↔
      ∃ text, rd.published text = .ok published ∧ calls = [⟨.publication remote, .ok text⟩] := by
  unfold publication
  constructor
  · -- the publication is fetched, and reads as one
    intro h
    obtain ⟨answer, rest, rfl, hanswer⟩ := Prog.told_perform_bind.mp h
    cases answer with
    | error problem => exact nomatch (Prog.told_pure.mp hanswer).2
    | ok text =>
      cases hreads : rd.published text with
      | error problem =>
        simp only [hreads] at hanswer
        exact nomatch (Prog.told_pure.mp hanswer).2
      | ok said =>
        simp only [hreads] at hanswer
        obtain ⟨rfl, heq⟩ := Prog.told_pure.mp hanswer
        obtain rfl := Except.ok.inj heq
        exact ⟨text, hreads, rfl⟩
  · rintro ⟨text, hreads, rfl⟩
    refine Prog.told_perform_bind.mpr ⟨.ok text, [], rfl, ?_⟩
    simp only [hreads]
    exact .pure

/-- A publication is taken for the node's where it says so of itself. -/
theorem declares_eq_ok {published : Published} :
    declares rd cluster name address published = .ok capability ↔
      Declares rd cluster name published capability := by
  unfold declares
  dsimp only
  split_ifs with hnode
  · -- a publication of another node is refused
    exact iff_of_false nofun fun h => hnode h.node
  · have hnode := not_not.mp hnode
    -- the first record of its capability scope is the one that tells
    cases hfound : published.records.find? fun one =>
        one.1 = rd.capabilityScope (Serving.nodeScope cluster name) with
    | none =>
      refine iff_of_false nofun fun h => ?_
      obtain ⟨one, hone, -⟩ := h.record
      exact nomatch hfound.symm.trans hone
    | some one =>
      have hiff : Declares rd cluster name published capability ↔
          rd.capability one.1 one.2 = some (.ok capability) := by
        refine ⟨fun h => ?_, fun h => ⟨hnode, one, hfound, h⟩⟩
        obtain ⟨other, hother, hspoken⟩ := h.record
        obtain rfl := Option.some.inj (hfound.symm.trans hother)
        exact hspoken
      rw [hiff, Option.bind_some]
      cases rd.capability one.1 one.2 with
      | none => exact iff_of_false nofun nofun
      | some answer =>
        cases answer with
        | error why => exact iff_of_false nofun nofun
        | ok said => simp

private theorem told_clusterAsked :
    (clusterAsked rd cluster port folder : Prog (RealOp R I) (Except Text Unit)).Told calls
      (.ok ()) ↔ ClusterAsked rd cluster port folder calls := by
  unfold clusterAsked
  constructor
  · -- the resolver is asked first, and where it knows no such name nothing else is
    intro h
    obtain ⟨known, first, rest, hresolving, hknown, rfl⟩ := Prog.told_bind.mp h
    rcases told_resolving.mp hresolving with ⟨rfl, rfl⟩ | ⟨rfl, rfl⟩
    · obtain ⟨rfl, -⟩ := Prog.told_pure.mp hknown
      exact .unknown
    · obtain ⟨answer, opening, rest, hanswering, hanswer, rfl⟩ := Prog.told_bind.mp hknown
      cases answer with
      | error why => exact nomatch (Prog.told_pure.mp hanswer).2
      | ok remote =>
        obtain ⟨said, asking, rest, hpublication, hsaid, rfl⟩ := Prog.told_bind.mp hanswer
        cases said with
        | error why => exact nomatch (Prog.told_pure.mp hsaid).2
        | ok published =>
          obtain ⟨text, hreads, rfl⟩ := told_publication.mp hpublication
          dsimp only at hsaid
          -- only a publication of a node of the cluster lets the run go on
          split_ifs at hsaid with hof
          · obtain ⟨rfl, -⟩ := Prog.told_pure.mp hsaid
            exact .node (told_answering.mp hanswering) hreads hof
          · exact nomatch (Prog.told_pure.mp hsaid).2
  · intro h
    cases h with
    | unknown => exact Prog.told_bind.mpr ⟨_, _, [], told_resolving.mpr (.inl ⟨rfl, rfl⟩), .pure,
        rfl⟩
    | node opened reads answers =>
      refine Prog.told_bind.mpr ⟨_, _, _, told_resolving.mpr (.inr ⟨rfl, rfl⟩),
        Prog.told_bind.mpr ⟨.ok _, _, _, told_answering.mpr opened,
          Prog.told_bind.mpr ⟨.ok _, _, [], told_publication.mpr ⟨_, reads, rfl⟩, ?_, rfl⟩, rfl⟩,
        rfl⟩
      dsimp only
      rw [if_pos answers]
      exact .pure

/-- **One name looked for**: the calls, and what it is. -/
theorem told_lookedFor {found : Option (RealNode R κ)} :
    (lookedFor rd cluster folder name port).Told calls (.ok found) ↔
      LookedFor rd cluster folder name port found calls := by
  unfold lookedFor
  constructor
  · -- the name does not resolve, or each of the calls that follow succeeds
    intro h
    obtain ⟨known, first, rest, hresolving, hknown, rfl⟩ := Prog.told_bind.mp h
    rcases told_resolving.mp hresolving with ⟨rfl, rfl⟩ | ⟨rfl, rfl⟩
    · obtain ⟨rfl, heq⟩ := Prog.told_pure.mp hknown
      obtain rfl := Except.ok.inj heq
      exact .unknown
    · obtain ⟨answer, opening, rest, hanswering, hanswer, rfl⟩ := Prog.told_bind.mp hknown
      cases answer with
      | error why => exact nomatch (Prog.told_pure.mp hanswer).2
      | ok remote =>
        obtain ⟨what, asking, rest, hdeclared, hwhat, rfl⟩ := Prog.told_bind.mp hanswer
        obtain ⟨said, asking, later, hpublication, hspoken, rfl⟩ := Prog.told_bind.mp hdeclared
        cases said with
        | error why =>
          obtain ⟨-, rfl⟩ := Prog.told_pure.mp hspoken
          exact nomatch (Prog.told_pure.mp hwhat).2
        | ok published =>
          obtain ⟨text, hreads, rfl⟩ := told_publication.mp hpublication
          obtain ⟨rfl, rfl⟩ := Prog.told_pure.mp hspoken
          cases hdeclares : declares rd cluster name (name ++ ':' :: port) published with
          | error why =>
            simp only [hdeclares] at hwhat
            exact nomatch (Prog.told_pure.mp hwhat).2
          -- what it declares is what the run takes of it
          | ok capability =>
            simp only [hdeclares] at hwhat
            obtain ⟨rfl, heq⟩ := Prog.told_pure.mp hwhat
            obtain rfl := Except.ok.inj heq
            exact .real (told_answering.mp hanswering) hreads (declares_eq_ok.mp hdeclares)
  · intro h
    cases h with
    | unknown => exact Prog.told_bind.mpr ⟨_, _, [], told_resolving.mpr (.inl ⟨rfl, rfl⟩), .pure,
        rfl⟩
    | real opened reads hdeclares =>
      refine Prog.told_bind.mpr ⟨_, _, _, told_resolving.mpr (.inr ⟨rfl, rfl⟩),
        Prog.told_bind.mpr ⟨.ok _, _, _, told_answering.mpr opened,
          Prog.told_bind.mpr ⟨.ok _, _, [], ?_, .pure, (List.append_nil _).symm⟩, rfl⟩, rfl⟩
      refine Prog.told_bind.mpr ⟨.ok _, _, [], told_publication.mpr ⟨_, reads, rfl⟩, ?_, rfl⟩
      dsimp only
      rw [declares_eq_ok.mpr hdeclares]
      exact .pure

/-- A name typed was looked for, at the port the cluster's file says, and came to this. -/
def Sought (rd : Reading I κ) (C : Configuration) (cluster : Text) (folder : Option Text)
    (name : Text) (one : Option (RealNode R κ) × List (Answered (RealOp R I))) : Prop :=
  ∃ port, operatePort C cluster (some name) = .ok port ∧
    LookedFor rd cluster folder name port one.1 one.2

/-- **The names typed**: each is looked for, in its turn, and those that resolve are real. -/
theorem told_foundEach {typed : List Text} {real all : List (RealNode R κ)} :
    (foundEach rd C cluster folder typed real).Told calls (.ok all) ↔
      ∃ outcomes, List.Forall₂ (Sought rd C cluster folder) typed outcomes ∧
        calls = outcomes.flatMap Prod.snd ∧ all = real ++ outcomes.filterMap Prod.fst := by
  induction typed generalizing real calls with
  | nil =>
    refine Prog.told_pure.trans ⟨?_, ?_⟩
    · rintro ⟨rfl, heq⟩
      exact ⟨[], .nil, rfl, (Except.ok.inj heq).trans (List.append_nil _).symm⟩
    · rintro ⟨outcomes, hall, rfl, rfl⟩
      obtain rfl := List.forall₂_nil_left_iff.mp hall
      exact ⟨rfl, congrArg Except.ok (List.append_nil _)⟩
  | cons name typed ih =>
    rw [foundEach]
    cases hport : operatePort C cluster (some name) with
    | error why =>
      -- Without a port to look at, the run is refused.
      refine iff_of_false (fun h => nomatch (Prog.told_pure.mp h).2) ?_
      rintro ⟨outcomes, hall, -⟩
      obtain ⟨one, rest, ⟨port, hsame, -⟩, -⟩ := List.forall₂_cons_left_iff.mp hall
      exact nomatch hport.symm.trans hsame
    | ok port =>
      constructor
      · intro h
        obtain ⟨found, first, rest, hlooked, hrest, rfl⟩ := Prog.told_bind.mp h
        cases found with
        | error why => exact nomatch (Prog.told_pure.mp hrest).2
        | ok found =>
          have hlooked := told_lookedFor.mp hlooked
          cases found with
          | none =>
            obtain ⟨outcomes, hall, rfl, rfl⟩ := ih.mp hrest
            exact ⟨(none, first) :: outcomes, .cons ⟨port, hport, hlooked⟩ hall, rfl, rfl⟩
          | some node =>
            obtain ⟨outcomes, hall, rfl, rfl⟩ := ih.mp hrest
            exact ⟨(some node, first) :: outcomes, .cons ⟨port, hport, hlooked⟩ hall, rfl,
              List.append_assoc ..⟩
      · rintro ⟨outcomes, hall, rfl, rfl⟩
        obtain ⟨⟨found, first⟩, rest, ⟨port', hsame, hlooked⟩, hrest, rfl⟩ :=
          List.forall₂_cons_left_iff.mp hall
        obtain rfl := Except.ok.inj (hport.symm.trans hsame)
        refine Prog.told_bind.mpr ⟨.ok found, first, _, told_lookedFor.mpr hlooked, ?_, rfl⟩
        cases found with
        | none => exact ih.mpr ⟨rest, hrest, rfl, rfl⟩
        | some node => exact ih.mpr ⟨rest, hrest, rfl, (List.append_assoc real [node] _).symm⟩

/-- The nodes a lookup comes to, and its calls: the cluster's own name first, then each name
typed. -/
theorem told_found {typed : List Text} {all : List (RealNode R κ)} :
    (found rd C cluster typed folder).Told calls (.ok all) ↔
      ∃ port first outcomes, operatePort C cluster none = .ok port ∧
        ClusterAsked rd cluster port folder first ∧
        List.Forall₂ (Sought rd C cluster folder) typed outcomes ∧
        calls = first ++ outcomes.flatMap Prod.snd ∧ all = outcomes.filterMap Prod.fst := by
  unfold found
  -- without a port nothing is asked
  cases hport : operatePort C cluster none with
  | error why =>
    refine iff_of_false (fun h => nomatch (Prog.told_pure.mp h).2) ?_
    rintro ⟨port, -, -, hsame, -⟩
    cases hsame
  | ok port =>
    -- first the cluster's own name, then each name typed in turn
    constructor
    · intro h
      obtain ⟨asked, first, rest, hcluster, hrest, rfl⟩ := Prog.told_bind.mp h
      cases asked with
      | error why => exact nomatch (Prog.told_pure.mp hrest).2
      | ok asked =>
        obtain ⟨outcomes, hall, rfl, rfl⟩ := told_foundEach.mp hrest
        exact ⟨port, first, outcomes, rfl, told_clusterAsked.mp hcluster, hall, rfl, rfl⟩
    · rintro ⟨port', first, outcomes, hsame, hcluster, hall, rfl, rfl⟩
      obtain rfl := Except.ok.inj hsame
      exact Prog.told_bind.mpr ⟨.ok (), first, _, told_clusterAsked.mpr hcluster,
        told_foundEach.mpr ⟨outcomes, hall, rfl, rfl⟩, rfl⟩

/-! ### What a run's nodes are -/

/-- What the real nodes declared, spliced into a roster, is what it has of each of them, the last of
a name's spellings as it said; and it has every other node as before. -/
theorem capability_declaredAll [Capability κ] (real : List (RealNode R κ)) (roster : Roster κ)
    (name : Text) :
    (real.foldl (fun roster node => roster.declared node.name node.capability) roster).capability
        name =
      (((real.filter fun node => eqIgnoreAsciiCase node.name name).getLast?).map
        RealNode.capability).getD (roster.capability name) := by
  induction real using List.reverseRecOn with
  | nil => rfl
  | append_singleton real node ih =>
    rw [List.foldl_append, List.foldl_cons, List.foldl_nil, Roster.capability_declared, ih,
      List.filter_append, List.filter_singleton]
    cases eqIgnoreAsciiCase node.name name with
    | false => rw [if_neg Bool.false_ne_true, cond_false, List.append_nil]
    | true => rw [if_pos rfl, cond_true, List.getLast?_concat, Option.map_some, Option.getD_some]

/-- A roster has the real nodes once what they declared is spliced in, and the nodes it had. -/
theorem exists_declaredAll (real : List (RealNode R κ)) (roster : Roster κ) (name : Text) :
    (∃ node ∈ (real.foldl (fun roster node =>
        roster.declared node.name node.capability) roster).nodes,
      eqIgnoreAsciiCase node.1 name = true) ↔
      (∃ node ∈ real, eqIgnoreAsciiCase node.name name = true) ∨
        ∃ node ∈ roster.nodes, eqIgnoreAsciiCase node.1 name = true := by
  induction real generalizing roster with
  | nil => simp
  | cons node real ih =>
    rw [List.foldl_cons, ih, Roster.exists_declared, List.exists_mem_cons_iff, or_left_comm,
      or_assoc]

/-- **A run's nodes are sorted truly.** Each name typed was looked for, in its turn, at the port the
cluster's file says, after the cluster's own. Real are those that resolved, as they declared
themselves: the roster has them, and each with what it declared. Simulated are just the nodes of the
roster no real one is named as. -/
theorem sorted_told [Capability κ] {typed : List Text} {roster : Roster κ} {s : Sorted R κ}
    (h : (sorted rd C cluster typed folder roster).Told calls (.ok s)) :
    (∃ port first outcomes, operatePort C cluster none = .ok port ∧
      ClusterAsked rd cluster port folder first ∧
      List.Forall₂ (Sought rd C cluster folder) typed outcomes ∧
      calls = first ++ outcomes.flatMap Prod.snd ∧ s.real = outcomes.filterMap Prod.fst) ∧
    s.names = s.real.map RealNode.name ∧
    (∀ name, (∃ node ∈ s.roster.nodes, eqIgnoreAsciiCase node.1 name = true) ↔
      (∃ node ∈ s.real, eqIgnoreAsciiCase node.name name = true) ∨
        ∃ node ∈ roster.nodes, eqIgnoreAsciiCase node.1 name = true) ∧
    (∀ name, s.roster.capability name =
      (((s.real.filter fun node => eqIgnoreAsciiCase node.name name).getLast?).map
        RealNode.capability).getD (roster.capability name)) ∧
    ∀ node, node ∈ s.simulated.nodes ↔
      node ∈ s.roster.nodes ∧ ∀ one ∈ s.real, eqIgnoreAsciiCase one.name node.1 = false := by
  -- all the calls are the lookup's; the rest is computed from what it found
  unfold sorted at h
  obtain ⟨answer, rest, later, hfound, hanswer, rfl⟩ := Prog.told_bind.mp h
  cases answer with
  | error why => exact nomatch (Prog.told_pure.mp hanswer).2
  | ok real =>
    obtain ⟨rfl, heq⟩ := Prog.told_pure.mp hanswer
    obtain rfl := Except.ok.inj heq
    rw [List.append_nil]
    refine ⟨told_found.mp hfound, rfl, exists_declaredAll real roster,
      capability_declaredAll real roster, fun node => ?_⟩
    rw [Roster.mem_without, List.forall_mem_map]

/-- A cluster file of two nodes, operated on one port. -/
def twoNodes : Configuration :=
  ⟨.ok ["R".toList, "P".toList], fun node _ => .ok (some (node ++ ":7400".toList))⟩

/-- A publication is the node it is of, which receives. -/
def receivingReading : Reading Unit Roles where
  identity _ _ _ := .ok ()
  published text := .ok ⟨text, [(text, "receiving".toList)]⟩
  capabilityScope := id
  capability _ evidence := some (Roles.read evidence .nothing)

/-- A node that receives. -/
def receiving : Roles := ⟨true, false, false, false, false⟩

/-- The node that answers to its name in another spelling. -/
def spelled : RealNode Unit Roles := ⟨['r'], "r:7400".toList, receiving, ()⟩

private theorem told_spelled : ∃ calls : List (Answered (RealOp Unit Unit)),
    (sorted receivingReading twoNodes ['C'] [['r'], ['x']] (some ['k'])
      ⟨[(['R'], Roles.nothing), (['P'], Roles.nothing)]⟩).Told calls
      (.ok ⟨[spelled], [['r']], ⟨[(['R'], receiving), (['P'], Roles.nothing)]⟩,
        ⟨[(['P'], Roles.nothing)]⟩⟩) := by
  have hscope : Serving.nodeScope ['C'] ['r'] = "xmip:///C/node/r".toList := by decide
  have hdeclares : Declares receivingReading ['C'] ['r']
      ⟨"xmip:///C/node/r".toList, [("xmip:///C/node/r".toList, "receiving".toList)]⟩ receiving :=
    ⟨hscope.symm, ("xmip:///C/node/r".toList, "receiving".toList), by decide, by decide⟩
  have hopened : Opened receivingReading "r:7400".toList () (some ['k'])
      [⟨.file ['k'] "operator.pem".toList, .ok []⟩, ⟨.file ['k'] "operator.key".toList, .ok []⟩,
        ⟨.file ['k'] "anchors.pem".toList, .ok []⟩, ⟨.opened "r:7400".toList (), .ok ()⟩] :=
    .opened rfl
  -- the one name resolves and declares that it receives; the other is unknown
  have hreal : ∃ asked, Sought receivingReading twoNodes ['C'] (some ['k']) ['r']
      (some spelled, asked) :=
    ⟨_, "7400".toList, by decide, .real hopened rfl hdeclares⟩
  have hunknown : ∃ asked, Sought (R := Unit) receivingReading twoNodes ['C'] (some ['k']) ['x']
      (none, asked) :=
    ⟨_, "7400".toList, by decide, .unknown⟩
  obtain ⟨asked, hreal⟩ := hreal
  obtain ⟨more, hunknown⟩ := hunknown
  have hfound := told_found.mpr ⟨"7400".toList, _, [(some spelled, asked), (none, more)],
    by decide, .unknown, .cons hreal (.cons hunknown .nil), rfl, rfl⟩
  refine ⟨_, Prog.told_bind.mpr ⟨.ok [spelled], _, [], hfound, ?_, rfl⟩⟩
  exact Prog.told_pure.mpr ⟨rfl, rfl⟩

/-- Of two names typed one resolves, and is the first of the roster's nodes, which receives; the
other node is simulated. -/
theorem sorted_told_spelled : ∃ (calls : List (Answered (RealOp Unit Unit)))
    (s : Sorted Unit Roles),
    (sorted receivingReading twoNodes ['C'] [['r'], ['x']] (some ['k'])
      ⟨[(['R'], Roles.nothing), (['P'], Roles.nothing)]⟩).Told calls (.ok s) ∧
    s.names = [['r']] ∧ s.roster.capability ['R'] = receiving ∧
    s.roster.capability ['P'] = Roles.nothing ∧ ∀ own, (['R'], own) ∉ s.simulated.nodes := by
  obtain ⟨calls, htold⟩ := told_spelled
  obtain ⟨-, -, -, hcapability, hsimulated⟩ := sorted_told htold
  refine ⟨calls, _, htold, rfl, (hcapability _).trans (by decide),
    (hcapability _).trans (by decide), fun own hown => ?_⟩
  have hnone := ((hsimulated _).mp hown).2 spelled List.mem_cons_self
  cases hnone

end Real

end XmipEssentials
