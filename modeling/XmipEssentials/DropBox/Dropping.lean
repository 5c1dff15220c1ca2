import Mathlib.Data.List.DropRight
import Mathlib.Data.List.Lex
import Mathlib.Data.Char
import XmipEssentials.Lib.Prog
import XmipEssentials.Lib.Text
import XmipEssentials.Observe

/-!
# The drop box

The roll drops bursts of files for every Party over every protocol of the file family, each recorded
before it is dropped. Every receiving node reads the same directories, and signs each file it takes.
The roll judges each file once its grace has passed, by who has signed it: one node, several, or
none (`Judged`).

Dropping, taking and judging are steps of different processes. What the roll drops and judges is its
own (`Roll`); the signatures are shared, and one may come while a file is judged, or after.
-/

namespace XmipEssentials

open Text Conc Keyed

namespace DropBox

/-! ### Protocols -/

/-- A protocol a Party drops over: the file family. -/
inductive Protocol where
  | file
  | ftp
  | ftps
  | sftp
  deriving DecidableEq, Repr

namespace Protocol

def name : Protocol → Text
  | file => "file".toList
  | ftp => "ftp".toList
  | ftps => "ftps".toList
  | sftp => "sftp".toList

/-- Whether the protocol reaches its far end over a socket. -/
def remote (p : Protocol) : Bool := p ≠ file

/-- Every how many rounds a Party drops a burst over the protocol. -/
def burstsEvery (p : Protocol) : Nat := if p.remote then 5 else 1

/-- Every how many rounds a receiving node lists the protocol's directories. -/
def listedEvery (p : Protocol) : Nat := if "ftp".toList <+: p.name then 2 else 1

end Protocol

/-- Every protocol a Party drops over, as the judgements are kept: by name. -/
def PROTOCOLS : List Protocol := [.file, .ftp, .ftps, .sftp]

/-- Files each Party drops at once, over each protocol. -/
def BURST : Nat := 8

/-- How long a dropped file may wait to be taken before it is judged: ten seconds, in
nanoseconds. -/
def GRACE : Int := 10000000000

/-! ### The judgement -/

/-- How many files a judgement names before it counts the rest. -/
def NAMED : Nat := 8

/-- What the roll has judged of every file dropped so far over one protocol. -/
structure Judged where
  files : Nat
  /-- The files each receiving node took, by its name. -/
  byNode : Counts Text
  /-- Each file taken more than once, and who took it. -/
  twice : List (Text × List Text)
  /-- Each file nobody took within its grace. -/
  never : List Text

namespace Judged

/-- Nothing judged yet. -/
def default : Judged := ⟨0, .none, [], []⟩

/-- A file judged by who has signed it. -/
def add (j : Judged) (named : Text) (winners : List Text) : Judged :=
  let j := { j with files := j.files + 1 }
  match winners.mergeSort (· ≤ ·) with
  | [] => { j with never := j.never ++ [named] }
  | [one] => { j with byNode := j.byNode.add one }
  | winners => { j with twice := j.twice ++ [(named, winners)] }

/-- Whether every file judged was taken once. -/
def held (j : Judged) : Bool := j.twice.isEmpty && j.never.isEmpty

/-- The first of the files, and how many more. -/
def listed (files : List Text) : Text :=
  let shown := List.intercalate ", ".toList (files.take NAMED)
  match files.length - NAMED with
  | 0 => shown
  | more => shown ++ " and ".toList ++ decimal more ++ " more".toList

/-- The judgement in words. -/
def words (j : Judged) : Text :=
  let split :=
    List.intercalate ", ".toList (j.byNode.all.map fun one => one.1 ++ ' ' :: decimal one.2)
  let split := if j.byNode.all.isEmpty then "none yet".toList else split
  if j.held then
    "every file taken by exactly one receiving node: ".toList ++ decimal j.files ++
      " files, ".toList ++ split
  else
    let twice := j.twice.map fun one => one.1 ++ " by ".toList ++
      List.intercalate " and ".toList one.2
    let said :=
      (if twice.isEmpty then [] else
        [decimal twice.length ++ " taken twice: ".toList ++ listed twice]) ++
      (if j.never.isEmpty then [] else
        [decimal j.never.length ++ " never taken: ".toList ++ listed j.never])
    List.intercalate "; ".toList said ++ " of ".toList ++ decimal j.files ++
      " files; once each: ".toList ++ split

/-- The judgement as the record of its protocol: fine while every file was taken once, done where
one was not. -/
def record (j : Judged) (root : Text) (protocol : Protocol) (now : Int) : HealthRecord where
  scope := root ++ "/drop-box/".toList ++ protocol.name
  health := if j.held then .fine else .done
  severity := if j.held then 0 else 80
  evidence := j.words
  observedUnixNanos := now

end Judged

/-! ### What the processes call -/

/-- A dropped file: the Party's, over a protocol. -/
structure Key where
  protocol : Protocol
  party : Text
  file : Text
  deriving DecidableEq, Repr

/-- What a judgement calls a file. -/
def Key.named (k : Key) : Text := k.party ++ '/' :: k.file

/-- A call of the roll or of a receiving node, by what it answers. -/
inductive DropOp : Type → Type 1 where
  /-- The time of a round, in nanoseconds since the epoch. -/
  | now : DropOp Int
  /-- The far ends started. -/
  | startFarEnds : DropOp (Except Text Unit)
  /-- The directory a Party's records are kept in, or the one it drops into, made. -/
  | makeDirs (protocol : Protocol) (party : Text) : DropOp (Except Text Unit)
  /-- The transport to a Party's directory, or none while its far end has not said where it
  listens. -/
  | transport (protocol : Protocol) (party : Text) : DropOp (Option (Except Text Unit))
  /-- A file recorded as dropped. -/
  | record (k : Key) : DropOp (Except Text Unit)
  | send (k : Key) (body : Text) : DropOp (Except Text Unit)
  /-- The time a pass of the judgement works by. -/
  | clock (protocol : Protocol) : DropOp Int
  /-- The files recorded as dropped. -/
  | records (protocol : Protocol) (party : Text) : DropOp (Except Text (List Text))
  /-- When a file was recorded. -/
  | modified (k : Key) : DropOp (Option Int)
  /-- The names a file is signed with. -/
  | winners (k : Key) : DropOp (Except Text (List Text))
  /-- No call at all: a file is judged, and the protocol's judgement is this from now on. -/
  | judges (protocol : Protocol) (judged : Judged) : DropOp Unit
  | removeRecord (k : Key) : DropOp Unit
  | removeWon (k : Key) : DropOp Unit
  /-- What a Party's directory hands over: where each file came from. -/
  | receive (protocol : Protocol) (party : Text) : DropOp (Except Text (List Text))
  /-- Whether a file could be read. -/
  | readToEnd : DropOp Bool
  /-- Whether an answer to the transport was taken. -/
  | acknowledge (accepted : Bool) : DropOp Bool
  | makeWon (k : Key) : DropOp Unit
  | sign (k : Key) (name : Text) : DropOp Unit

/-! ### The roll -/

/-- The roll's side of the drop box. -/
structure Dropping where
  farEnds : Except Text Unit
  /-- The transports built so far. -/
  senders : List (Protocol × Text)
  judged : Protocol → Judged
  round : Nat

/-- What a file dropped in a round is called. -/
def dropName (round one : Nat) : Text := padded 10 round ++ '-' :: (padded 2 one ++ ".txt".toList)

/-- A burst under way: the roll's side, and how many files were dropped. -/
abbrev Bursting := Dropping × Nat

namespace Dropping

/-- One file recorded, then sent. -/
def dropFile (protocol : Protocol) (party : Text) (round : Nat) (b : Bursting) (one : Nat) :
    Prog DropOp (Bursting × Option Text) := do
  let k : Key := ⟨protocol, party, dropName round one⟩
  match ← Prog.perform (.record k) with
  | .error why => pure (b, some why)
  | .ok _ =>
    -- recorded first, so that a file dropped is never unknown
    let body := party ++ " dropped ".toList ++ k.file ++ " over ".toList ++ protocol.name
    match ← Prog.perform (.send k body) with
    | .error why =>
      pure
        (b,
          some (protocol.name ++ ": ".toList ++ party ++ ": ".toList ++ k.file ++ ": ".toList ++
            why))
    | .ok _ => pure ((b.1, b.2 + 1), none)

/-- The Party's transport, built where it is not yet. -/
def sender (protocol : Protocol) (party : Text) (r : Dropping) :
    Prog DropOp (Dropping × Option Text) := do
  if (protocol, party) ∈ r.senders then pure (r, none)
  else
    match ← Prog.perform (.transport protocol party) with
    -- its far end has not said where it listens
    | none => pure (r, some (protocol.name ++ " for ".toList ++ party ++ ": no server".toList))
    | some (.error why) => pure (r, some why)
    | some (.ok _) => pure ({ r with senders := (protocol, party) :: r.senders }, none)

/-- The burst of one Party over one protocol. -/
def dropParty (protocol : Protocol) (round : Nat) (b : Bursting) (party : Text) :
    Prog DropOp (Bursting × Option Text) := do
  match ← Prog.perform (.makeDirs protocol party) with
  | .error why => pure (b, some why)
  | .ok _ =>
    let built ← sender protocol party b.1
    match built.2 with
    | some why => pure ((built.1, b.2), some why)
    -- the first file that could not be dropped ends the burst
    | none => Prog.foldUntil (dropFile protocol party round) (List.range BURST) (built.1, b.2)

/-- The bursts of one protocol, where the round has any. -/
def dropProtocol (parties : List Text) (round : Nat) (b : Bursting) (protocol : Protocol) :
    Prog DropOp (Bursting × Option Text) :=
  -- the first round drops over every protocol
  if (round - 1) % protocol.burstsEvery ≠ 0 then pure (b, none)
  else Prog.foldUntil (dropParty protocol round) parties b

/-- The bursts due in a round dropped, each file recorded as dropped before it is dropped: how many,
or why one was not. -/
def dropBurst (parties : List Text) (round : Nat) (r : Dropping) :
    Prog DropOp (Except Text Nat × Dropping) := do
  let dropped ← Prog.foldUntil (dropProtocol parties round) PROTOCOLS (r, 0)
  match dropped.2 with
  | some why => pure (.error why, dropped.1.1)
  | none => pure (.ok dropped.1.2, dropped.1.1)

end Dropping

namespace Judged

/-- Whether a file recorded then has had its grace. -/
def due (recorded : Option Int) (now : Int) : Bool :=
  match recorded with
  -- a clock that went back makes nothing due
  | some t => t ≤ now ∧ GRACE ≤ now - t
  | none => false

/-- The names of a directory, none where it cannot be read. -/
def namesOf : Except Text (List Text) → List Text
  | .ok names => names
  | .error _ => []

/-- One recorded file judged where it is due, and its records cleared. -/
def judgeFile (protocol : Protocol) (party : Text) (now : Int) (j : Judged) (file : Text) :
    Prog DropOp Judged := do
  let k : Key := ⟨protocol, party, file⟩
  let recorded ← Prog.perform (.modified k)
  -- a file still within its grace waits for a later pass
  if !due recorded now then pure j
  else
    let winners ← Prog.perform (.winners k)
    -- no directory of winners, or none that can be read: taken by nobody
    let j := j.add k.named (namesOf winners)
    Prog.perform (.judges protocol j)
    Prog.perform (.removeRecord k)
    Prog.perform (.removeWon k)
    pure j

/-- One Party's files judged. -/
def judgeParty (protocol : Protocol) (now : Int) (j : Judged) (party : Text) : Prog DropOp Judged :=
  do
  match ← Prog.perform (.records protocol party) with
  | .ok files => files.foldlM (judgeFile protocol party now) j
  | .error _ => pure j

/-- Every file dropped over the protocol longer than the grace before now judged, and its records
cleared. -/
def judge (protocol : Protocol) (parties : List Text) (j : Judged) : Prog DropOp Judged := do
  let now ← Prog.perform (.clock protocol)
  parties.foldlM (judgeParty protocol now) j

end Judged

namespace Dropping

/-- The far ends started, and nothing judged. -/
def new : Prog DropOp Dropping := do
  let farEnds ← Prog.perform .startFarEnds
  pure { farEnds, senders := [], judged := fun _ => .default, round := 0 }

variable {S : Type} [Snapshot S]

/-- The protocol's judgement recorded: a drop that failed in its words. -/
def recordJudged (r : Dropping) (dropped : Except Text Nat) (root : Text) (now : Int) (snapshot : S)
    (protocol : Protocol) : S :=
  let record := (r.judged protocol).record root protocol now
  let record :=
    match dropped with
    | .error why =>
      { record with
        health := .done
        evidence := "a burst was not dropped: ".toList ++ why ++ "; ".toList ++ record.evidence }
    | .ok _ => record
  Snapshot.recordHealth record snapshot

/-- One protocol judged. -/
def judgeProtocol (parties : List Text) (r : Dropping) (protocol : Protocol) :
    Prog DropOp Dropping := do
  let judged ← (r.judged protocol).judge protocol parties
  pure { r with judged := Function.update r.judged protocol judged }

/-- The bursts dropped, where the far ends started. -/
def dropDue (parties : List Text) (r : Dropping) : Prog DropOp (Except Text Nat × Dropping) :=
  match r.farEnds with
  | .ok _ => r.dropBurst parties r.round
  -- without its far ends nothing is dropped, and what was dropped is judged all the same
  | .error why => pure (.error ("the drop box's servers did not start: ".toList ++ why), r)

/-- This round's bursts dropped, what is due judged, and each protocol's judgement recorded. -/
def roundOf (parties : List Text) (root : Text) (r : Dropping) (snapshot : S) :
    Prog DropOp (S × Dropping) := do
  let now ← Prog.perform .now
  let dropped ← { r with round := r.round + 1 }.dropDue parties
  let r ← PROTOCOLS.foldlM (judgeProtocol parties) dropped.2
  pure (PROTOCOLS.foldl (r.recordJudged dropped.1 root now) snapshot, r)

end Dropping

/-! ### A receiving node -/

/-- One Party's directory over one protocol, as a receiving node reads it. -/
structure DropLocation where
  protocol : Protocol
  party : Text
  /-- Whether its transport is built. -/
  transport : Bool
  taken : Nat

/-- One receiving node reading every Party's directories. -/
structure Taker where
  name : Text
  locations : List DropLocation
  round : Nat

/-- The file of where it came from. -/
def fileOf (origin : Text) : Text := (origin.takeWhile (· ≠ '?')).rtakeWhile (· ≠ '/')

namespace Taker

/-- The node of a name, reading the drop box every Party drops into. -/
def new (name : Text) (parties : List Text) : Taker where
  name := name
  locations := PROTOCOLS.flatMap fun protocol => parties.map fun party =>
    ⟨protocol, party, false, 0⟩
  round := 0

/-- What a location hands over, each file accepted and signed. -/
def takeArrived (name : Text) : List Text → DropLocation → Prog DropOp DropLocation
  | [], location => pure location
  | origin :: rest, location => do
    let read ← Prog.perform .readToEnd
    let acknowledged ← Prog.perform (.acknowledge read)
    if acknowledged && read then
      let k : Key := ⟨location.protocol, location.party, fileOf origin⟩
      Prog.perform (.makeWon k)
      Prog.perform (.sign k name)
      takeArrived name rest { location with taken := location.taken + 1 }
    else takeArrived name rest location

/-- The location with its transport, where it can be built. -/
def reached (location : DropLocation) : Prog DropOp DropLocation := do
  if location.transport then pure location
  else
    match ← Prog.perform (.transport location.protocol location.party) with
    | some (.ok _) => pure { location with transport := true }
    | _ => pure location

/-- What the location hands this node now. -/
def takeFrom (name : Text) (location : DropLocation) : Prog DropOp DropLocation := do
  let location ← reached location
  if !location.transport then pure location
  else
    match ← Prog.perform (.receive location.protocol location.party) with
    | .ok arrived => takeArrived name arrived location
    | .error _ => pure location

variable {S : Type} [Snapshot S]

/-- What the node has taken from a location recorded. -/
def recordTaken (node : Text) (now : Int) (snapshot : S) (location : DropLocation) : S :=
  let scope := node ++ "/drop-box/".toList ++ location.protocol.name ++ '/' :: location.party
  Snapshot.recordCount ⟨scope, .streams, location.taken, now, now, now⟩ snapshot

/-- One round: what this node's claims win taken, accepted and signed, and counted. -/
def take (node : Text) (t : Taker) (snapshot : S) : Prog DropOp (S × Taker) := do
  let now ← Prog.perform .now
  let t := { t with round := t.round + 1 }
  let locations ← Prog.each (fun location : DropLocation =>
    if t.round % location.protocol.listedEvery = 0 then takeFrom t.name location
      else pure location) t.locations
  pure (locations.foldl (recordTaken node now) snapshot, { t with locations })

end Taker

end DropBox

end XmipEssentials
